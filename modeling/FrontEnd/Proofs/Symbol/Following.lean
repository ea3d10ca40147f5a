import FrontEnd.Proofs.Program.TypeName
import FrontEnd.Proofs.Symbol.Enrolling

/-!
# Resolving by number

Types can be resolved in an arena. A scope is a number, the types around it are searched on the way
up, and a segment refers to the number that a search ends at. Each search is partial, and so is the
look at the arity of what it finds.

A search by number locates what a search at a path finds when it gives the number of it, or finds
nothing either (`Arena.Located`); it is never cut short.

**The law** (`Arena.answers_resolve`): in an arena that links a tree, resolving a file by the number
of its module answers resolving it at the path.
-/

namespace FrontEnd

/-- The path above a path is the next that the path stands in. -/
theorem Path.ancestors_concat (path : Path) (segment : String) :
    ancestors (path ++ [segment]) = (path ++ [segment]) :: path.ancestors := by
  have whole : (path ++ [segment]).take (path.length + 1) = path ++ [segment] := by
    apply List.take_of_length_le
    simp
  have shorter : ∀ n ∈ (List.range (path.length + 1)).reverse,
      (path ++ [segment]).take n = path.take n := by
    intro n inside
    rw [List.mem_reverse, List.mem_range] at inside
    exact List.take_append_of_le_length (by omega)
  rw [ancestors, List.length_append, List.length_singleton, List.range_succ, List.reverse_concat,
    List.map_cons, whole, List.map_congr_left shorter]
  rfl

namespace Arena

/-! ## Searching by number -/

/-- The number of what stands below an entry at a segment, if its claim is one of those asked for. -/
def childWith? (a : Arena) (asked : Claim → Bool) (id : Nat) (segment : String) :
    Option (Option Nat) := do
  match ← a.child? id segment with
  | none => return none
  | some child =>
    let entry ← a.linked? child
    return if asked entry.claim then some child else none

/-- The number of the first type that stands at a segment below an entry or on the way up from it; a
longer way than the bound is not followed. -/
def climbFor? (a : Arena) (segment : String) : Nat → Nat → Option (Option Nat)
  | 0, _ => none
  | bound + 1, id => do
    match ← a.childWith? Claim.isType id segment with
    | some found => return some found
    | none =>
      let entry ← a.linked? id
      match entry.parent with
      | none => return none
      | some parent => a.climbFor? segment bound parent

/-- **The number of the type that a segment means inside a scope.** -/
def typeInScope? (a : Arena) (scope : Nat) (segment : String) : Option (Option Nat) :=
  a.climbFor? segment a.size scope

/-- The number of the type that a segment means in an argument of a type. -/
def typeInArgument? (a : Arena) (scope owner : Nat) (segment : String) : Option (Option Nat) := do
  match ← a.childWith? Claim.isNestedType owner segment with
  | some found => return some found
  | none => a.typeInScope? scope segment

/-- **What a search by number gives where a search at a path finds something**: the number of it, or
nothing where nothing is found. -/
inductive Located (t : Tree) : Option Path → Option (Option Nat) → Prop
  | absent : Located t none (some none)
  | found {path : Path} {id : Nat} : t.find? path = some id → Located t (some path) (some (some id))

/-- A search by number locates a search at a path, whatever the text. -/
def Locates (t : Tree) (find : String → Option Path) (search : String → Option (Option Nat)) :
    Prop :=
  ∀ text, Located t (find text) (search text)

variable {a : Arena} {t : Tree} {path scope : Path} {id : Nat}

theorem Links.located_childWith? (links : a.Links t) (found : t.find? path = some id)
    (asked : Claim → Bool) (segment : String) :
    Located t (if (t.claimAt? (path ++ [segment])).any asked then some (path ++ [segment]) else none)
      (a.childWith? asked id segment) := by
  rw [childWith?, links.child?_eq found, Option.bind_eq_bind, Option.bind_some]
  cases below : t.find? (path ++ [segment]) with
  | none =>
    have absent := Tree.claimAt?_eq_none_iff.2 (Tree.find?_eq_none_iff.1 below)
    rw [absent]
    exact .absent
  | some child =>
    obtain ⟨entry, here, stands⟩ := links.stands below
    simp only [here, stands.claim, Option.bind_eq_bind, Option.bind_some, Option.any_some]
    by_cases isAsked : asked entry.claim
    · rw [if_pos isAsked, if_pos isAsked]
      exact .found below
    · rw [if_neg isAsked, if_neg isAsked]
      exact .absent

/-- The types below a path are located by its number. -/
theorem Links.locates_typeBelow? (links : a.Links t) (found : t.find? path = some id) :
    Locates t (t.typeBelow? path) (a.childWith? Claim.isType id) :=
  links.located_childWith? found Claim.isType

/-- The way up from the number of a scope passes what the scope stands in, from the inside out. -/
theorem Links.located_climbFor? (links : a.Links t) (segment : String) {bound : Nat}
    (found : t.find? path = some id) (enough : path.length < bound) :
    Located t (t.typeInScope? path segment) (a.climbFor? segment bound id) := by
  induction bound generalizing path id with
  | zero => exact absurd enough (Nat.not_lt_zero _)
  | succ bound ih =>
    have below := links.locates_typeBelow? found segment
    obtain ⟨entry, here, stands⟩ := links.stands found
    rw [climbFor?, Tree.typeInScope?]
    cases path using List.reverseRecOn with
    | nil =>
      have alone : Path.ancestors [] = [[]] := rfl
      rw [alone, List.findSome?_singleton]
      generalize t.typeBelow? [] segment = first, a.childWith? _ id segment = search at below
      cases below with
      | found atChild => exact .found atChild
      | absent =>
        have top : entry.parent = none := stands.parent
        simp only [here, top, Option.bind_eq_bind, Option.bind_some]
        exact .absent
    | append_singleton outer last =>
      rw [Path.ancestors_concat, List.findSome?_cons]
      generalize t.typeBelow? (outer ++ [last]) segment = first,
        a.childWith? _ id segment = search at below
      cases below with
      | found atChild => exact .found atChild
      | absent =>
        obtain ⟨parent, up, atOuter⟩ := stands.above links.isMap (Tree.mem_paths_of_find? found)
          (List.append_ne_nil_of_right_ne_nil _ (List.cons_ne_nil _ _))
        rw [List.dropLast_concat] at atOuter
        rw [List.length_append, List.length_singleton] at enough
        simp only [here, up, Option.bind_eq_bind, Option.bind_some]
        exact ih atOuter (by omega)

/-- **What a segment means inside a scope is located** by the number of the scope. -/
theorem Links.locates_typeInScope? (links : a.Links t) (found : t.find? scope = some id) :
    Locates t (t.typeInScope? scope) (a.typeInScope? id) := by
  intro segment
  apply links.located_climbFor? segment found
  rw [links.size]
  exact links.isMap.length_lt_size (Tree.mem_paths_of_find? found)

/-- What a segment means in an argument is located by the numbers of the scope and the type. -/
theorem Links.locates_typeInArgument? (links : a.Links t) (found : t.find? scope = some id)
    {owner : Path} {number : Nat} (atOwner : t.find? owner = some number) :
    Locates t (fun text => t.nestedType? owner text <|> t.typeInScope? scope text)
      (a.typeInArgument? id number) := by
  intro segment
  have inside : Located t (t.nestedType? owner segment) _ :=
    links.located_childWith? atOwner Claim.isNestedType segment
  rw [typeInArgument?]
  dsimp only
  generalize t.nestedType? owner segment = first, a.childWith? _ number segment = search at inside
  cases inside with
  | found atChild => exact .found atChild
  | absent => exact links.locates_typeInScope? found segment

/-! ## Resolving by number -/

mutual
/-- **Resolves a name** in the scope with a number, `find` being what its first segment may mean. -/
def resolveName (a : Arena) (scope : Nat) (find : String → Option (Option Nat)) :
    Name → Guarded Resolutions Unit
  | ⟨segments, _⟩ => resolveSegments a scope find segments
/-- Resolves segments, each below the one before. -/
def resolveSegments (a : Arena) (scope : Nat) (find : String → Option (Option Nat)) :
    List Segment → Guarded Resolutions Unit
  | [] => pure ()
  | segment :: rest => do
    let found ← resolveSegment a scope find segment
    resolveSegments a scope (a.childWith? Claim.isType found) rest
/-- **Resolves a segment with its arguments** and gives the number of the type that it refers to,
whose path is read for a log. -/
def resolveSegment (a : Arena) (scope : Nat) (find : String → Option (Option Nat)) :
    Segment → Guarded Resolutions Nat
  | ⟨id, text, arguments, span⟩ => do
    match ← demand (find text) with
    | none => throw ⟨.undefinedSymbol text, span.start⟩
    | some found =>
      let entry ← demand (a.linked? found)
      let expected := entry.claim.value.arity
      if expected = arguments.length then
        let _ ← demand (a.pathOf? found)
        modify fun r => r.insert id found
        resolveArguments a scope found arguments
        return found
      else
        throw ⟨.genericArgumentMismatch text expected arguments.length, span.start⟩
/-- Resolves the arguments given to the type with a number. -/
def resolveArguments (a : Arena) (scope owner : Nat) : List Name → Guarded Resolutions Unit
  | [] => pure ()
  | argument :: rest => do
    resolveName a scope (a.typeInArgument? scope owner) argument
    resolveArguments a scope owner rest
end

/-- Resolves names in the scope with a number. -/
def resolveEach (a : Arena) (scope : Nat) (names : List Name) : Guarded Resolutions Unit :=
  names.forM (resolveName a scope (a.typeInScope? scope))

/-- **The number of a declaration** that has claimed a path below an entry. -/
def declared (a : Arena) (parent : Nat) (path : Path) (position : Position) :
    Guarded Resolutions Nat := do
  match ← demand (a.lookup? parent path) with
  | none => throw ⟨.undefinedSymbol path.written, position⟩
  | some id =>
    let entry ← demand (a.linked? id)
    if entry.claim.isKnown then pure id else throw ⟨.undefinedSymbol path.written, position⟩

mutual
/-- **Resolves a structure below an entry**, and those that stand in it below its own. -/
def resolveStruct (a : Arena) (parent : Nat) : StructDecl → Guarded Resolutions Unit
  | ⟨isClosed, name, parameters, bases, fields, inner, span⟩ => do
    let scope ← a.declared parent [name] span.start
    a.resolveEach scope (StructDecl.mk isClosed name parameters bases fields inner span).ownTypes
    resolveStructs a scope inner
/-- Resolves structures below an entry. -/
def resolveStructs (a : Arena) (parent : Nat) : List StructDecl → Guarded Resolutions Unit
  | [] => pure ()
  | struct :: rest => do
    resolveStruct a parent struct
    resolveStructs a parent rest
end

/-- **Resolves a declaration below the entry of its module.** -/
def resolveDecl (a : Arena) (module : Nat) : Decl → Guarded Resolutions Unit
  | .struct d => a.resolveStruct module d
  | .function f => do
    let scope ← a.declared module f.name.path f.span.start
    a.resolveEach scope f.types
  | .interface i => do
    let scope ← a.declared module [i.name] i.span.start
    a.resolveEach scope i.types
  | .synonym d => do
    let scope ← a.declared module [d.name] d.span.start
    a.resolveEach scope [d.type]
  | .enum _ => pure ()

/-- **Resolves the types of a file** by the number of its module. -/
def resolve (a : Arena) (module : Nat) (file : File) : Guarded Resolutions Unit :=
  file.declarations.forM (a.resolveDecl module)

mutual
/-- **Segments are resolved alike by number.** -/
theorem answers_resolveSegments (links : a.Links t) (found : t.find? scope = some id)
    (segments : List Segment) {find : String → Option Path}
    {search : String → Option (Option Nat)} (locates : Locates t find search) :
    Answers Eq (t.resolveSegments scope find segments) (a.resolveSegments id search segments)
      fun _ r _ s => r = s := by
  cases segments with
  | nil => exact .pure fun _ _ same => same
  | cons first rest =>
    rw [Tree.resolveSegments, resolveSegments]
    refine .bind (answers_resolveSegment links found first locates) fun owner number => ?_
    rintro r _ ⟨rfl, atOwner⟩
    exact answers_resolveSegments links found rest (links.locates_typeBelow? atOwner) rfl
/-- **A segment is resolved alike by number**, and the number of its path is given. -/
theorem answers_resolveSegment (links : a.Links t) (found : t.find? scope = some id)
    (segment : Segment) {find : String → Option Path} {search : String → Option (Option Nat)}
    (locates : Locates t find search) :
    Answers Eq (t.resolveSegment scope find segment) (a.resolveSegment id search segment)
      fun path r number s => r = s ∧ t.find? path = some number := by
  cases segment with
  | mk part text arguments span =>
    have located := locates text
    rw [Tree.resolveSegment, resolveSegment]
    generalize find text = path?, search text = number? at located
    cases located with
    | absent => exact .demand rfl (.halt _)
    | @found path number atPath =>
      obtain ⟨entry, here, stands⟩ := links.stands atPath
      have arity : t.arityAt path = entry.claim.value.arity := by
        rw [Tree.arityAt, stands.claim, Option.elim_some]
      refine .demand rfl (.demand here ?_)
      dsimp only
      rw [arity]
      by_cases fits : entry.claim.value.arity = arguments.length
      · rw [if_pos fits, if_pos fits]
        refine .demand (links.pathOf?_eq atPath) ?_
        have notes : Answers Eq (t.note part path) (modify fun r => r.insert part number)
            fun _ r _ s => r = s := by
          apply Answers.change
          rintro r _ rfl
          rw [atPath, Option.getD_some]
        refine .bind notes fun _ _ => ?_
        refine .bind (answers_resolveArguments links found atPath arguments) fun _ _ => ?_
        exact .pure fun _ _ same => ⟨same, atPath⟩
      · rw [if_neg fits, if_neg fits]
        exact .halt _
/-- Arguments are resolved alike by number. -/
theorem answers_resolveArguments (links : a.Links t) (found : t.find? scope = some id)
    {owner : Path} {number : Nat} (atOwner : t.find? owner = some number) (arguments : List Name) :
    Answers Eq (t.resolveArguments scope owner arguments) (a.resolveArguments id number arguments)
      fun _ r _ s => r = s := by
  cases arguments with
  | nil => exact .pure fun _ _ same => same
  | cons first rest =>
    have locates := links.locates_typeInArgument? found atOwner
    exact .bind (answers_resolveName links found first locates)
      fun _ _ => answers_resolveArguments links found atOwner rest
/-- **A name is resolved alike by number.** -/
theorem answers_resolveName (links : a.Links t) (found : t.find? scope = some id) (name : Name)
    {find : String → Option Path} {search : String → Option (Option Nat)}
    (locates : Locates t find search) :
    Answers Eq (t.resolveName scope find name) (a.resolveName id search name)
      fun _ r _ s => r = s := by
  cases name with
  | mk segments span =>
    rw [Tree.resolveName, resolveName]
    exact answers_resolveSegments links found segments locates
end

/-- Names of a scope are resolved alike by its number. -/
theorem answers_resolveEach (links : a.Links t) (found : t.find? scope = some id)
    (names : List Name) :
    Answers Eq ((names.map (.type scope)).forM t.meet) (a.resolveEach id names)
      fun _ r _ s => r = s :=
  .forM_map fun name _ => answers_resolveName links found name (links.locates_typeInScope? found)

/-- **A declaration is found by number where one is demanded at a path.** -/
theorem answers_declared (links : a.Links t) {owner : Path} (found : t.find? owner = some id)
    (below : Path) (position : Position) :
    Answers Eq (t.meet (.declared owner below position)) (a.declared id below position)
      fun _ r number s => r = s ∧ t.find? (owner ++ below) = some number := by
  rw [Tree.meet]
  refine .demand (links.lookup?_eq found below) ?_
  cases stands : t.find? (owner ++ below) with
  | none =>
    have absent := Tree.claimAt?_eq_none_iff.2 (Tree.find?_eq_none_iff.1 stands)
    rw [absent]
    exact .halt _
  | some number =>
    obtain ⟨entry, here, standsAt⟩ := links.stands stands
    rw [standsAt.claim, Option.any_some]
    refine .demand here ?_
    by_cases known : entry.claim.isKnown
    · rw [if_pos known, if_pos known]
      exact .pure fun _ _ same => ⟨same, rfl⟩
    · rw [if_neg known, if_neg known]
      exact .halt _

/-- A declaration and the demands of the names in it, by number. -/
theorem answers_declared_within (links : a.Links t) {owner : Path}
    (found : t.find? owner = some id) {below : Path} {position : Position} {demands : List Demand}
    {inside : Nat → Guarded Resolutions Unit}
    (within : ∀ {number : Nat}, t.find? (owner ++ below) = some number →
      Answers Eq (demands.forM t.meet) (inside number) fun _ r _ s => r = s) :
    Answers Eq ((.declared owner below position :: demands).forM t.meet)
      (a.declared id below position >>= inside) fun _ r _ s => r = s := by
  refine .bind (answers_declared links found below position) fun _ number => ?_
  rintro r _ ⟨rfl, atOwn⟩
  exact within atOwn rfl

mutual
/-- **A structure is resolved alike by the number of what it stands in.** -/
theorem answers_resolveStruct (links : a.Links t) {owner : Path} {id : Nat}
    (found : t.find? owner = some id) (d : StructDecl) :
    Answers Eq ((Demand.ofStruct owner d).forM t.meet) (a.resolveStruct id d)
      fun _ r _ s => r = s := by
  cases d with
  | mk isClosed name parameters bases fields inner span =>
    apply answers_declared_within links found
    intro number atOwn
    have names : Demand.ofParameters (owner ++ [name]) parameters ++
        bases.map (.type (owner ++ [name])) ++
        fields.map (fun f => .type (owner ++ [name]) f.type) =
        (StructDecl.mk isClosed name parameters bases fields inner span).ownTypes.map
          (.type (owner ++ [name])) := by
      simp [Demand.ofParameters, StructDecl.ownTypes, boundsOf]
    rw [names]
    exact .forM_append (answers_resolveEach links atOwn _) fun _ =>
      answers_resolveStructs links atOwn inner
/-- Structures are resolved alike by the number of what they stand in. -/
theorem answers_resolveStructs (links : a.Links t) {owner : Path} {id : Nat}
    (found : t.find? owner = some id) (ds : List StructDecl) :
    Answers Eq ((Demand.ofStructs owner ds).forM t.meet) (a.resolveStructs id ds)
      fun _ r _ s => r = s := by
  cases ds with
  | nil => exact .pure fun _ _ same => same
  | cons first rest =>
    exact .forM_append (answers_resolveStruct links found first) fun _ =>
      answers_resolveStructs links found rest
end

/-- **A declaration is resolved alike by the number of its module.** -/
theorem answers_resolveDecl (links : a.Links t) {module : Path} (found : t.find? module = some id)
    (d : Decl) :
    Answers Eq ((Demand.ofDecl module d).forM t.meet) (a.resolveDecl id d)
      fun _ r _ s => r = s := by
  cases d with
  | struct d => exact answers_resolveStruct links found d
  | function f =>
    apply answers_declared_within links found
    intro number atOwn
    have names : Demand.ofParameters (module ++ f.name.path) f.parameters ++
        Demand.ofSignature (module ++ f.name.path) f.inputs f.output ++
        Demand.ofStmts (module ++ f.name.path) f.body =
        f.types.map (.type (module ++ f.name.path)) := by
      simp [Demand.ofParameters, Demand.ofSignature, Demand.ofStmts_eq, FnDecl.types, boundsOf,
        signatureTypes]
    rw [names]
    exact answers_resolveEach links atOwn _
  | interface i =>
    apply answers_declared_within links found
    intro number atOwn
    have names : (Demand.ofParameters (module ++ [i.name]) i.parameters ++
        i.methods.flatMap fun m => Demand.ofSignature (module ++ [i.name]) m.inputs m.output) =
        i.types.map (.type (module ++ [i.name])) := by
      simp [Demand.ofParameters, Demand.ofSignature, InterfaceDecl.types, boundsOf,
        signatureTypes, List.map_flatMap]
      rfl
    rw [names]
    exact answers_resolveEach links atOwn _
  | synonym d =>
    apply answers_declared_within links found
    intro number atOwn
    exact answers_resolveEach links atOwn [d.type]
  | enum d => exact .pure fun _ _ same => same

/-- **Resolving a file by the number of its module answers resolving it at the path**: no search is
cut short or misses an entry, the same fault is found, and otherwise the same is noted. -/
theorem answers_resolve (links : a.Links t) {module : Path} (found : t.find? module = some id)
    (file : File) :
    Answers Eq (t.resolve module file) (a.resolve id file) fun _ r _ s => r = s :=
  .forM_flatMap fun d _ => answers_resolveDecl links found d

end Arena

end FrontEnd

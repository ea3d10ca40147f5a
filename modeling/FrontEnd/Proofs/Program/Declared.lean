import FrontEnd.Proofs.Program.TypeName
import FrontEnd.Symbol.Registration

/-!
# What a file declares

A declaration says of its path what kind of symbol it is, where it starts and how many type arguments
it takes. What a file declares is said here by one rule for each kind of symbol
(`Decl.Declares`), on paths below the module and without an order: a structure with its type
parameters and fields, wherever it stands in others (`StructDecl.Within`), a function at its whole
dotted path, an interface with its methods. Resolving asks for the own node of a structure, a
function, an interface and a synonym (`Decl.Seeks`).

**The laws** (`File.mem_claims_iff`, `File.seeks_of_mem_demands`): a file registers exactly what it
declares, and asks for the own nodes of its declarations alone.
-/

namespace FrontEnd

/-! ## Declarations and their claims -/

/-- The claim of a type parameter. -/
def TypeParameter.claim (p : TypeParameter) : Claim :=
  .declared .typeParameter p.span.start 0

/-- The claim of a field. -/
def Field.claim (f : Field) : Claim :=
  .declared .structField f.span.start 0

/-- The claim of a structure. -/
def StructDecl.claim (d : StructDecl) : Claim :=
  .declared .struct d.span.start d.parameters.length

/-- The claim of a function. -/
def FnDecl.claim (d : FnDecl) : Claim :=
  .declared .function d.span.start d.parameters.length

/-- The claim of a function that an interface asks for. -/
def Method.claim (m : Method) : Claim :=
  .declared .interfaceMethod m.span.start 0

/-- The claim of an interface. -/
def InterfaceDecl.claim (d : InterfaceDecl) : Claim :=
  .declared .interface d.span.start d.parameters.length

/-- The claim of a synonym. -/
def SynonymDecl.claim (d : SynonymDecl) : Claim :=
  .declared .synonym d.span.start 0

/-- The claim of an enumeration. -/
def EnumDecl.claim (d : EnumDecl) : Claim :=
  .declared .enum d.span.start 0

/-- **A structure stands in another** at the path of the structures around it; every structure stands
in itself with none around. -/
inductive StructDecl.Within : StructDecl → Path → StructDecl → Prop
  | itself (d : StructDecl) : d.Within [] d
  | inside {d e s : StructDecl} {owner : Path} : e ∈ d.inner → e.Within owner s →
    d.Within (d.name :: owner) s

/-- **What a declaration declares**, each at its path below the module. -/
inductive Decl.Declares : Decl → Path → Claim → Prop
  | struct {d s : StructDecl} {owner : Path} : d.Within owner s →
    (Decl.struct d).Declares (owner ++ [s.name]) s.claim
  | structParameter {d s : StructDecl} {owner : Path} {p : TypeParameter} : d.Within owner s →
    p ∈ s.parameters → (Decl.struct d).Declares (owner ++ [s.name] ++ [p.name]) p.claim
  | field {d s : StructDecl} {owner : Path} {f : Field} : d.Within owner s →
    f ∈ s.fields → (Decl.struct d).Declares (owner ++ [s.name] ++ [f.name]) f.claim
  | function (d : FnDecl) : (Decl.function d).Declares d.name.path d.claim
  | functionParameter {d : FnDecl} {p : TypeParameter} : p ∈ d.parameters →
    (Decl.function d).Declares (d.name.path ++ [p.name]) p.claim
  | interface (d : InterfaceDecl) : (Decl.interface d).Declares [d.name] d.claim
  | interfaceParameter {d : InterfaceDecl} {p : TypeParameter} : p ∈ d.parameters →
    (Decl.interface d).Declares ([d.name] ++ [p.name]) p.claim
  | method {d : InterfaceDecl} {m : Method} : m ∈ d.methods →
    (Decl.interface d).Declares ([d.name] ++ [m.name]) m.claim
  | synonym (d : SynonymDecl) : (Decl.synonym d).Declares [d.name] d.claim
  | enum (d : EnumDecl) : (Decl.enum d).Declares [d.name] d.claim

/-- **What a declaration looks for as its own**: a path below another, at which its claim stands. -/
inductive Decl.Seeks : Decl → Path → Path → Claim → Prop
  | struct {d s : StructDecl} {owner : Path} : d.Within owner s →
    (Decl.struct d).Seeks owner [s.name] s.claim
  | function (d : FnDecl) : (Decl.function d).Seeks [] d.name.path d.claim
  | interface (d : InterfaceDecl) : (Decl.interface d).Seeks [] [d.name] d.claim
  | synonym (d : SynonymDecl) : (Decl.synonym d).Seeks [] [d.name] d.claim

/-- **What a file declares** is what its declarations do. -/
def File.Declares (file : File) (path : Path) (claim : Claim) : Prop :=
  ∃ d ∈ file.declarations, d.Declares path claim

/-- What the declarations of a file look for as their own. -/
def File.Seeks (file : File) (owner below : Path) (claim : Claim) : Prop :=
  ∃ d ∈ file.declarations, d.Seeks owner below claim

/-- **A declaration declares what it looks for.** -/
theorem Decl.Seeks.declares {d : Decl} {owner below : Path} {claim : Claim}
    (seeks : d.Seeks owner below claim) : d.Declares (owner ++ below) claim := by
  cases seeks with
  | struct within => exact .struct within
  | function d => exact .function d
  | interface d => exact .interface d
  | synonym d => exact .synonym d

theorem File.Seeks.declares {file : File} {owner below : Path} {claim : Claim}
    (seeks : file.Seeks owner below claim) : file.Declares (owner ++ below) claim := by
  obtain ⟨d, mem, seeks⟩ := seeks
  exact ⟨d, mem, seeks.declares⟩

/-! ## Structures in structures -/

namespace StructDecl

mutual
theorem within_of_mem_withInner {owner scope : Path} {s : StructDecl} (d : StructDecl)
    (mem : (scope, s) ∈ d.withInner owner) :
    ∃ inner, d.Within inner s ∧ scope = owner ++ (inner ++ [s.name]) := by
  cases d with
  | mk isClosed name parameters bases fields inner span =>
    rw [withInner] at mem
    rcases List.mem_cons.1 mem with same | mem
    · cases same
      exact ⟨[], .itself _, rfl⟩
    · obtain ⟨e, inside, path, within, rfl⟩ := within_of_mem_withInnerAll inner mem
      exact ⟨name :: path, .inside inside within, List.append_assoc ..⟩
theorem within_of_mem_withInnerAll {owner scope : Path} {s : StructDecl} (ds : List StructDecl)
    (mem : (scope, s) ∈ withInnerAll owner ds) :
    ∃ e ∈ ds, ∃ inner, e.Within inner s ∧ scope = owner ++ (inner ++ [s.name]) := by
  cases ds with
  | nil => cases mem
  | cons first rest =>
    rcases List.mem_append.1 mem with mem | mem
    · exact ⟨first, List.mem_cons_self, within_of_mem_withInner first mem⟩
    · obtain ⟨e, inside, found⟩ := within_of_mem_withInnerAll rest mem
      exact ⟨e, List.mem_cons_of_mem _ inside, found⟩
end

theorem Within.mem_withInner {d s : StructDecl} {inner : Path} (within : d.Within inner s)
    (owner : Path) : (owner ++ (inner ++ [s.name]), s) ∈ d.withInner owner := by
  induction within generalizing owner with
  | itself d =>
    cases d
    exact List.mem_cons_self
  | @inside d e s path inside _ ih =>
    obtain ⟨isClosed, name, parameters, bases, fields, inner, span⟩ := d
    rw [withInner, withInnerAll_eq]
    have there := ih (owner ++ [name])
    rw [List.append_assoc] at there
    exact List.mem_cons_of_mem _ (List.mem_flatMap.2 ⟨e, inside, there⟩)

/-- **The structures that are listed with a structure** are those that stand in it. -/
theorem mem_withInner_iff {owner scope : Path} {d s : StructDecl} :
    (scope, s) ∈ d.withInner owner ↔
      ∃ inner, d.Within inner s ∧ scope = owner ++ (inner ++ [s.name]) := by
  constructor
  · exact within_of_mem_withInner d
  · rintro ⟨inner, within, rfl⟩
    exact within.mem_withInner owner

/-- The structures around a structure stand in the outermost one too. -/
theorem Within.around {d s : StructDecl} {owner path : Path} (within : d.Within owner s)
    (begins : path <+: owner) (below : path ≠ []) :
    ∃ outer e, d.Within outer e ∧ path = outer ++ [e.name] := by
  induction within generalizing path with
  | itself d => exact absurd (List.prefix_nil.1 begins) below
  | @inside d e s owner inside _ ih =>
    obtain ⟨rest, rfl, deeper⟩ := (List.prefix_cons_iff.1 begins).resolve_left below
    by_cases direct : rest = []
    · exact ⟨[], d, .itself d, by rw [direct, List.nil_append]⟩
    · obtain ⟨outer, s', within, rfl⟩ := ih deeper direct
      exact ⟨d.name :: outer, s', .inside inside within, rfl⟩

end StructDecl

/-- **What stands around what is declared** is declared too, unless it is a beginning of the dotted
path of a function. -/
theorem Decl.Declares.around {d : Decl} {path outer : Path} {claim : Claim}
    (declares : d.Declares path claim) (begins : outer <+: path) (below : outer ≠ []) :
    (∃ claim, d.Declares outer claim) ∨
      ∃ f, d = .function f ∧ outer <+: f.name.path ∧ outer ≠ f.name.path := by
  by_cases whole : outer = path
  · exact .inl ⟨claim, whole ▸ declares⟩
  have shorter {owner : Path} {last : String} (begins : outer <+: owner ++ [last])
      (other : outer ≠ owner ++ [last]) : outer <+: owner :=
    (List.prefix_concat_iff.1 begins).resolve_left other
  have atTop {name : String} (begins : outer <+: [name]) : outer = [name] :=
    (List.prefix_cons_iff.1 begins).elim (absurd · below) fun ⟨rest, same, nothing⟩ => by
      rw [same, List.prefix_nil.1 nothing]
  have inStruct {d s : StructDecl} {owner : Path} (within : d.Within owner s)
      (begins : outer <+: owner ++ [s.name]) : ∃ claim, (Decl.struct d).Declares outer claim := by
    by_cases here : outer = owner ++ [s.name]
    · exact ⟨s.claim, here ▸ .struct within⟩
    · obtain ⟨around, e, outside, rfl⟩ := within.around (shorter begins here) below
      exact ⟨e.claim, .struct outside⟩
  cases declares with
  | struct within => exact .inl (inStruct within begins)
  | structParameter within _ | field within _ =>
    exact .inl (inStruct within (shorter begins whole))
  | function f => exact .inr ⟨f, rfl, begins, whole⟩
  | @functionParameter f p _ =>
    have begins := shorter begins whole
    by_cases here : outer = f.name.path
    · exact .inl ⟨f.claim, here ▸ .function f⟩
    · exact .inr ⟨f, rfl, begins, here⟩
  | @interfaceParameter i _ _ | @method i _ _ =>
    have here := atTop (shorter begins whole)
    exact .inl ⟨i.claim, here ▸ .interface i⟩
  | interface _ | synonym _ | enum _ => exact absurd (atTop begins) whole

/-! ## What is registered -/

namespace Registration

mutual
/-- The claims of a structure, one structure in it after another. -/
theorem ofStruct_eq (owner : Path) (d : StructDecl) :
    ofStruct owner d = (d.withInner owner).flatMap fun (scope, s) =>
      ⟨scope, s.claim⟩ :: (ofParameters scope s.parameters ++ ofFields scope s.fields) := by
  cases d with
  | mk isClosed name parameters bases fields inner span =>
    rw [ofStruct, StructDecl.withInner, List.flatMap_cons, ofStructs_eq (owner ++ [name]) inner]
    rfl
theorem ofStructs_eq (owner : Path) (ds : List StructDecl) :
    ofStructs owner ds = (withInnerAll owner ds).flatMap fun (scope, s) =>
      ⟨scope, s.claim⟩ :: (ofParameters scope s.parameters ++ ofFields scope s.fields) := by
  cases ds with
  | nil => rfl
  | cons first rest =>
    rw [ofStructs, withInnerAll, List.flatMap_append, ofStruct_eq owner first,
      ofStructs_eq owner rest]
end

theorem mem_ofParameters_iff {owner : Path} {parameters : List TypeParameter} {r : Registration} :
    r ∈ ofParameters owner parameters ↔ ∃ p ∈ parameters, ⟨owner ++ [p.name], p.claim⟩ = r :=
  List.mem_map

theorem mem_ofFields_iff {owner : Path} {fields : List Field} {r : Registration} :
    r ∈ ofFields owner fields ↔ ∃ f ∈ fields, ⟨owner ++ [f.name], f.claim⟩ = r :=
  List.mem_map

theorem mem_ofStruct_iff {owner : Path} {d : StructDecl} {r : Registration} :
    r ∈ ofStruct owner d ↔ ∃ inner s, d.Within inner s ∧
      (r = ⟨owner ++ (inner ++ [s.name]), s.claim⟩ ∨
        r ∈ ofParameters (owner ++ (inner ++ [s.name])) s.parameters ∨
        r ∈ ofFields (owner ++ (inner ++ [s.name])) s.fields) := by
  simp only [ofStruct_eq, List.mem_flatMap, Prod.exists, StructDecl.mem_withInner_iff,
    List.mem_cons, List.mem_append]
  constructor
  · rintro ⟨_, s, ⟨inner, within, rfl⟩, own⟩
    exact ⟨inner, s, within, own⟩
  · rintro ⟨inner, s, within, own⟩
    exact ⟨_, s, ⟨inner, within, rfl⟩, own⟩

/-- **A declaration registers exactly what it declares.** -/
theorem mem_ofDecl_iff {d : Decl} {path : Path} {claim : Claim} :
    ⟨path, claim⟩ ∈ ofDecl d ↔ d.Declares path claim := by
  constructor
  · intro mem
    cases d with
    | struct d =>
      obtain ⟨inner, s, within, own⟩ := mem_ofStruct_iff.1 mem
      rcases own with same | mem | mem
      · cases same
        exact .struct within
      · obtain ⟨p, inside, same⟩ := mem_ofParameters_iff.1 mem
        cases same
        exact .structParameter within inside
      · obtain ⟨f, inside, same⟩ := mem_ofFields_iff.1 mem
        cases same
        exact .field within inside
    | function d =>
      rcases List.mem_cons.1 mem with same | mem
      · cases same
        exact .function d
      · obtain ⟨p, inside, same⟩ := mem_ofParameters_iff.1 mem
        cases same
        exact .functionParameter inside
    | interface d =>
      rcases List.mem_cons.1 mem with same | mem
      · cases same
        exact .interface d
      rcases List.mem_append.1 mem with mem | mem
      · obtain ⟨p, inside, same⟩ := mem_ofParameters_iff.1 mem
        cases same
        exact .interfaceParameter inside
      · obtain ⟨m, inside, same⟩ := List.mem_map.1 mem
        cases same
        exact .method inside
    | synonym d =>
      cases List.mem_singleton.1 mem
      exact .synonym d
    | enum d =>
      cases List.mem_singleton.1 mem
      exact .enum d
  · intro declares
    cases declares with
    | struct within => exact mem_ofStruct_iff.2 ⟨_, _, within, .inl rfl⟩
    | structParameter within inside =>
      exact mem_ofStruct_iff.2 ⟨_, _, within, .inr (.inl (List.mem_map_of_mem inside))⟩
    | field within inside =>
      exact mem_ofStruct_iff.2 ⟨_, _, within, .inr (.inr (List.mem_map_of_mem inside))⟩
    | function d => exact List.mem_cons_self
    | functionParameter inside => exact List.mem_cons_of_mem _ (List.mem_map_of_mem inside)
    | interface d => exact List.mem_cons_self
    | interfaceParameter inside =>
      exact List.mem_cons_of_mem _ (List.mem_append_left _ (List.mem_map_of_mem inside))
    | method inside =>
      exact List.mem_cons_of_mem _ (List.mem_append_right _ (List.mem_map_of_mem inside))
    | synonym d => exact List.mem_singleton_self _
    | enum d => exact List.mem_singleton_self _

end Registration

/-- **A file registers exactly what it declares.** -/
theorem File.mem_claims_iff {file : File} {path : Path} {claim : Claim} :
    ⟨path, claim⟩ ∈ file.claims ↔ file.Declares path claim := by
  simp only [File.claims, List.mem_flatMap, Registration.mem_ofDecl_iff, File.Declares]

/-! ## What is looked for -/

namespace Demand

mutual
theorem within_of_mem_ofStruct {scope owner below : Path} {position : Position} (d : StructDecl)
    (mem : .declared owner below position ∈ ofStruct scope d) :
    ∃ inner s, d.Within inner s ∧ owner = scope ++ inner ∧ below = [s.name] ∧
      position = s.span.start := by
  cases d with
  | mk isClosed name parameters bases fields inner span =>
    simp only [ofStruct, ofParameters, List.mem_cons, List.mem_append, List.mem_map,
      reduceCtorEq, and_false, exists_false, false_or] at mem
    rcases mem with same | mem
    · cases same
      exact ⟨[], _, .itself _, (List.append_nil _).symm, rfl, rfl⟩
    · obtain ⟨e, inside, path, s, within, rfl, here⟩ := within_of_mem_ofStructs inner mem
      exact ⟨name :: path, s, .inside inside within, List.append_assoc .., here⟩
theorem within_of_mem_ofStructs {scope owner below : Path} {position : Position}
    (ds : List StructDecl) (mem : .declared owner below position ∈ ofStructs scope ds) :
    ∃ e ∈ ds, ∃ inner s, e.Within inner s ∧ owner = scope ++ inner ∧ below = [s.name] ∧
      position = s.span.start := by
  cases ds with
  | nil => cases mem
  | cons first rest =>
    rcases List.mem_append.1 mem with mem | mem
    · exact ⟨first, List.mem_cons_self, within_of_mem_ofStruct first mem⟩
    · obtain ⟨e, inside, found⟩ := within_of_mem_ofStructs rest mem
      exact ⟨e, List.mem_cons_of_mem _ inside, found⟩
end

theorem not_mem_ofStmts {scope owner below : Path} {position : Position} (body : List Stmt) :
    .declared owner below position ∉ ofStmts scope body := by
  rw [ofStmts_eq]
  simp

/-- **A declaration asks for what it looks for as its own**, at the place where it starts. -/
theorem seeks_of_mem_ofDecl {module owner below : Path} {position : Position} {d : Decl}
    (mem : .declared owner below position ∈ ofDecl module d) :
    ∃ inner claim, d.Seeks inner below claim ∧ owner = module ++ inner ∧
      position = claim.value.position := by
  cases d with
  | struct d =>
    obtain ⟨inner, s, within, rfl, rfl, rfl⟩ := within_of_mem_ofStruct d mem
    exact ⟨inner, s.claim, .struct within, rfl, rfl⟩
  | function d =>
    simp only [ofDecl, ofParameters, ofSignature, List.mem_cons, List.mem_append, List.mem_map,
      reduceCtorEq, and_false, exists_false, List.not_mem_nil, not_mem_ofStmts, or_false] at mem
    cases mem
    exact ⟨[], d.claim, .function d, (List.append_nil _).symm, rfl⟩
  | interface d =>
    simp only [ofDecl, ofParameters, ofSignature, List.mem_cons, List.mem_append, List.mem_map,
      List.mem_flatMap, reduceCtorEq, and_false, exists_false, List.not_mem_nil, or_false] at mem
    cases mem
    exact ⟨[], d.claim, .interface d, (List.append_nil _).symm, rfl⟩
  | synonym d =>
    simp only [ofDecl, List.mem_cons, reduceCtorEq, List.not_mem_nil, or_false] at mem
    cases mem
    exact ⟨[], d.claim, .synonym d, (List.append_nil _).symm, rfl⟩
  | enum d => cases mem

end Demand

/-- **A file asks for the own nodes of its declarations alone.** -/
theorem File.seeks_of_mem_demands {file : File} {module owner below : Path} {position : Position}
    (mem : .declared owner below position ∈ file.demands module) :
    ∃ inner claim, file.Seeks inner below claim ∧ owner = module ++ inner ∧
      position = claim.value.position := by
  obtain ⟨d, inFile, mem⟩ := List.mem_flatMap.1 mem
  obtain ⟨inner, claim, seeks, found⟩ := Demand.seeks_of_mem_ofDecl mem
  exact ⟨inner, claim, ⟨d, inFile, seeks⟩, found⟩

end FrontEnd

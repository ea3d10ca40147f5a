import FrontEnd.Compilation
import FrontEnd.Proofs.Grammar.Indexing
import FrontEnd.Proofs.Rendering
import FrontEnd.Proofs.Scope.Guarding
import FrontEnd.Proofs.References

/-!
# Compiling misses nothing

Units can be compiled by partial operations alone: their sources are scanned by slices and parsed by
index, their symbols are kept in an arena and found by number, and the only file of a single source
is taken out of a list. Every one of these operations may miss what it reads, and nothing stands in
for what is missed, so that the whole has no result then.

**The law** (`compile_misses_nothing`): it always has one, and the one that compiling has, whatever
the source; and the diagnostic of a source that does not compile is rendered by partial operations
too.
-/

namespace FrontEnd

/-! ## Compiling by partial operations -/

/-- A result that a fault may end as one of a run that may halt. -/
def Checked.lift {α : Type} (result : Checked α) : CheckedFor Halt α :=
  Option.map Compilation.lift result

/-- What a run on a desk gives: the file and the first number left over. -/
def Desk.outcome : EStateM.Result Halt Desk File → Except Halt (File × Nat)
  | .ok file d => .ok (file, d.nextId)
  | .error halt _ => .error halt

/-- **The file of a source**, scanned by slices and parsed by index. -/
def parseSource? (file source : String) (firstId : Nat) : CheckedFor Halt (File × Nat) := do
  let tokens ← Checked.lift (Token.sliced? file source)
  ((Parse.file .standard).onDesk (Desk.enter tokens firstId)).map Desk.outcome

/-- The files of units, numbered through. -/
def parseUnits? (firstId : Nat) : List SourceUnit → CheckedFor Halt (List File)
  | [] => pure []
  | unit :: rest => do
    let (file, nextId) ← parseSource? unit.file unit.source firstId
    let files ← parseUnits? nextId rest
    return file :: files

namespace Arena

/-- Resolves the types of files. -/
def resolveAll (a : Arena) (files : List (Nat × File)) : Guarded Resolutions Unit :=
  files.forM fun placed => a.resolve placed.1 placed.2

/-- Checks the functions of files. -/
def checkAll (a : Arena) (files : List (Nat × File)) : Checked Unit :=
  files.forM fun placed => placed.2.functions.forM (a.checkScopes placed.1)

/-- **What parsed files amount to**, their symbols being kept in an arena. -/
def assemble (config : Config) (files : List (Path × File)) : Checked (Arena × Resolutions) := do
  let (placed, a) ← (registerAll config files).run empty
  let ((), resolutions) ← (a.resolveAll placed).run .empty
  a.checkAll placed
  return (a, resolutions)

end Arena

/-- **Compiles units** by partial operations. -/
def compileUnits? (config : Config) (units : List SourceUnit) :
    CheckedFor Halt (List File × Arena × Resolutions) := do
  let files ← parseUnits? 0 units
  let assembled ← Checked.lift (Arena.assemble config ((units.map SourceUnit.modulePath).zip files))
  return (files, assembled)

/-- **Compiles a single source** by partial operations; its file is the first of those compiled. -/
def compile? (config : Config) (file : Option String) (source : String) :
    CheckedFor Halt (File × Arena × Resolutions) := do
  let (files, assembled) ← compileUnits? config [⟨[], file.getD config.defaultFile, source⟩]
  let first ← ExceptT.lift files[0]?
  return (first, assembled)

/-! ## Results that agree -/

/-- **A guarded result agrees with a result**: both were ended alike, or both have a value, and the
values belong together. -/
inductive Agreed {ε α β : Type} (together : α → β → Prop) : Except ε α → CheckedFor ε β → Prop
  | ended {a : α} {b : β} : together a b → Agreed together (.ok a) (some (.ok b))
  | halted {e : ε} : Agreed together (.error e) (some (.error e))

namespace Agreed

variable {ε α β γ δ : Type} {together : α → β → Prop} {later : γ → δ → Prop}

theorem outcome {plain : Except ε α} {result : CheckedFor ε β}
    (agreed : Agreed together plain result) :
    (∃ a b, plain = .ok a ∧ result = some (.ok b) ∧ together a b) ∨
      ∃ e, plain = .error e ∧ result = some (.error e) := by
  cases agreed with
  | ended holds => exact .inl ⟨_, _, rfl, rfl, holds⟩
  | halted => exact .inr ⟨_, rfl, rfl⟩

theorem of_eq {plain : Except ε α} {result : CheckedFor ε α} (same : result = some plain) :
    Agreed (fun a b => b = a) plain result := by
  subst same
  cases plain with
  | ok => exact .ended rfl
  | error => exact .halted

/-- **Results in a row agree** when the first do, and the second behind values that belong
together. -/
theorem bind {plain : Except ε α} {result : CheckedFor ε β} {plainNext : α → Except ε γ}
    {next : β → CheckedFor ε δ} (first : Agreed together plain result)
    (behind : ∀ a b, plain = .ok a → together a b → Agreed later (plainNext a) (next b)) :
    Agreed later (plain >>= plainNext) (result >>= next) := by
  cases first with
  | ended holds =>
    rw [Checked.bind_of_ok rfl]
    exact behind _ _ rfl holds
  | halted =>
    rw [Checked.bind_of_error rfl]
    exact .halted

/-- What is partial behind a result that agrees may have a value for each that it can have. -/
theorem further {plain : Except ε α} {result : CheckedFor ε β} {later : α → δ → Prop}
    {next : β → CheckedFor ε δ} (first : Agreed together plain result)
    (behind : ∀ a b, plain = .ok a → together a b → Agreed later (.ok a) (next b)) :
    Agreed later plain (result >>= next) := by
  have both := first.bind behind
  rwa [show (plain >>= fun a => .ok a) = plain from bind_pure plain] at both

theorem lift {plain : Except Diagnostic α} {result : Checked β}
    (agreed : Agreed together plain result) :
    Agreed together (Compilation.lift plain) (Checked.lift result) := by
  cases agreed with
  | ended holds => exact .ended holds
  | halted => exact .halted

end Agreed

/-- What an answered action leaves behind agrees with what the action does. -/
theorem Answers.agreed {σ τ α β : Type} {pre : σ → τ → Prop} {action : EStateM Diagnostic σ α}
    {guarded : Guarded τ β} {post : α → σ → β → τ → Prop} (answers : Answers pre action guarded post)
    {s : σ} {t : τ} (start : pre s t) :
    Agreed (fun p q => post p.1 p.2 q.1 q.2) (Compilation.finish action s) (guarded.run t) := by
  rw [Compilation.finish, EStateM.run, StateT.run]
  rcases answers.outcome start with ⟨a, s', b, t', run, answered, holds⟩ | ⟨d, s', run, answered⟩
  · rw [run, answered]
    exact .ended holds
  · rw [run, answered]
    exact .halted

/-! ## Sources -/

/-- **A source is parsed alike by slices and by index**: the tokens that are sliced are those of the
scan, and the desk on them is that of the cursor. -/
theorem parseSource?_eq (file source : String) (firstId : Nat) :
    parseSource? file source firstId = some (Compilation.parseSource file source firstId) := by
  have scanned : Checked.lift (Token.sliced? file source) =
      some (Compilation.lift (Token.ofText file source)) := by
    rw [Token.sliced?_eq]
    rfl
  refine Checked.bind_eq scanned fun tokens _ => ?_
  rw [Desk.enter_eq, Parse.onDesk_eq, Option.map_some, File.ofTokens, EStateM.run]
  cases Parse.file .standard (.ofTokens tokens firstId) with
  | ok value c => rfl
  | error halt c => rfl

theorem parseUnits?_eq (firstId : Nat) (units : List SourceUnit) :
    parseUnits? firstId units = some (Compilation.parseUnits firstId units) := by
  induction units generalizing firstId with
  | nil => rfl
  | cons unit rest ih =>
    refine Checked.bind_eq (parseSource?_eq unit.file unit.source firstId) fun parsed _ => ?_
    exact Checked.bind_eq (ih parsed.2) fun _ _ => rfl

/-- The files of units have no name without a first segment. -/
theorem rooted_of_parseUnits {firstId : Nat} {units : List SourceUnit} {files : List File}
    (parsed : Compilation.parseUnits firstId units = .ok files) :
    ∀ file ∈ files, ∀ name ∈ file.names, name.Rooted := by
  induction units generalizing firstId files with
  | nil =>
    cases parsed
    nofun
  | cons unit rest ih =>
    obtain ⟨⟨file, nextId⟩, first, parsed⟩ := except_bind_eq_ok.1 parsed
    obtain ⟨later, behind, parsed⟩ := except_bind_eq_ok.1 parsed
    cases parsed
    obtain ⟨tokens, -, ofTokens⟩ := except_bind_eq_ok.1 first
    rw [List.forall_mem_cons]
    exact ⟨File.rooted_of_ofTokens ofTokens, ih behind⟩

/-- The statements of the functions of a file are rooted everywhere when its names are. -/
theorem File.rooted_functions {file : File} (rooted : ∀ name ∈ file.names, name.Rooted) :
    ∀ f ∈ file.functions, ∀ stmt ∈ f.body, stmt.Everywhere Stmt.Rooted := by
  intro f mem
  obtain ⟨d, declared, same⟩ := List.mem_filterMap.1 mem
  cases d with
  | function g =>
    cases same
    have inBody : ∀ stmt ∈ FrontEnd.statements f.body, stmt.Rooted := by
      intro stmt inside name written
      have named : name ∈ (Decl.function f).names :=
        List.mem_append_right _ (List.mem_flatMap.2 ⟨stmt, inside, written⟩)
      exact rooted name (List.mem_flatMap.2 ⟨_, declared, named⟩)
    exact forall_statements_iff.1 inBody
  | struct | interface | synonym | enum => cases same

/-! ## Symbols -/

namespace Arena

variable {a : Arena} {t : Tree} {placed : List Placed} {numbered : List (Nat × File)}

/-- Files are resolved alike by the numbers of their modules. -/
theorem answers_resolveAll (links : a.Links t) (beside : List.Forall₂ (Beside t) placed numbered) :
    Answers Eq (Compilation.resolveAll t placed) (a.resolveAll numbered) fun _ r _ s => r = s := by
  induction beside with
  | nil => exact .pure fun _ _ same => same
  | @cons p q _ _ here _ ih =>
    obtain ⟨same, found⟩ := here
    have resolves : Answers Eq (t.resolve p.module p.file) (a.resolve q.1 q.2)
        fun _ r _ s => r = s := by
      rw [same]
      exact answers_resolve links found q.2
    exact .bind resolves fun _ _ => ih

/-- Files whose names are rooted are checked alike by the numbers of their modules. -/
theorem checkAll_eq (links : a.Links t) (beside : List.Forall₂ (Beside t) placed numbered)
    (rooted : ∀ p ∈ placed, ∀ name ∈ p.file.names, name.Rooted) :
    a.checkAll numbered = some (Compilation.checkAll t placed) := by
  induction beside with
  | nil => rfl
  | @cons p q _ _ here _ ih =>
    obtain ⟨same, found⟩ := here
    rw [List.forall_mem_cons] at rooted
    have functions : q.2.functions.forM (a.checkScopes q.1) =
        some (p.file.functions.forM (t.checkScopes p.module)) := by
      rw [← same]
      apply Checked.forM_eq
      intro f mem
      exact links.checkScopes_eq found (File.rooted_functions rooted.1 f mem)
    exact Checked.bind_eq functions fun _ _ => ih rooted.2

/-- **What files amount to by number** is what they amount to at paths. -/
theorem agreed_assemble (config : Config) {files : List (Path × File)}
    (rooted : ∀ f ∈ files, ∀ name ∈ f.2.names, name.Rooted) :
    Agreed (fun p q => p.files = files.map Prod.snd ∧ q.1.Links p.tree ∧ q.2 = p.resolutions)
      (Compilation.assemble config files) (assemble config files) := by
  have registers := (answers_registerAll config files).agreed ⟨rfl, rfl⟩
  refine registers.bind fun (placed, t) (numbered, a) registered ⟨links, beside⟩ => ?_
  have names : ∀ p ∈ placed, ∀ name ∈ p.file.names, name.Rooted := by
    obtain ⟨-, rfl, -⟩ := Compilation.registered_of_registerAll (Compilation.finish_eq_ok registered)
    rwa [List.forall_mem_map]
  have resolves := (answers_resolveAll links beside).agreed (rfl : Resolutions.empty = .empty)
  refine resolves.bind fun ((), reads) ((), found) _ same => ?_
  have checks := Agreed.of_eq (checkAll_eq links beside names)
  exact checks.bind fun _ _ _ _ => .ended ⟨rfl, links, same.symm⟩

end Arena

/-! ## Units -/

/-- **Units compile alike by partial operations**: to the same files, as many as there are units, an
arena that links the symbol tree, and the same that is resolved. -/
theorem agreed_compileUnits (config : Config) (units : List SourceUnit) :
    Agreed (fun p q => p.files = q.1 ∧ q.1.length = units.length ∧ q.2.1.Links p.tree ∧
        q.2.2 = p.resolutions)
      (compileUnits config units) (compileUnits? config units) := by
  have parses := Agreed.of_eq (parseUnits?_eq 0 units)
  refine parses.bind fun files files' parsed same => ?_
  subst same
  have sameLength := (Compilation.taken_writtenIds parsed).1
  have rooted : ∀ f ∈ (units.map SourceUnit.modulePath).zip files', ∀ name ∈ f.2.names,
      name.Rooted := fun f mem => rooted_of_parseUnits parsed f.2 (List.of_mem_zip mem).2
  refine (Arena.agreed_assemble config rooted).lift.further ?_
  rintro p ⟨a, found⟩ - ⟨sameFiles, links, sameFound⟩
  have paired : files'.length = (units.map SourceUnit.modulePath).length := by
    rw [List.length_map, sameLength]
  rw [List.map_snd_zip (Nat.le_of_eq paired)] at sameFiles
  exact .ended ⟨sameFiles, sameLength, links, sameFound⟩

/-- **A single source compiles alike by partial operations**, and its file is the only one. -/
theorem agreed_compile (config : Config) (file : Option String) (source : String) :
    Agreed (fun p q => p.files = [q.1] ∧ q.2.1.Links p.tree ∧ q.2.2 = p.resolutions)
      (compile config file source) (compile? config file source) := by
  refine (agreed_compileUnits config _).further ?_
  rintro p ⟨files, a, found⟩ - ⟨sameFiles, single, links, sameFound⟩
  obtain ⟨first, rfl⟩ := List.length_eq_one_iff.1 single
  exact .ended ⟨sameFiles, links, sameFound⟩

/-- Units are parsed within their budgets. -/
theorem parseUnits_ne_exhausted (firstId : Nat) (units : List SourceUnit) :
    Compilation.parseUnits firstId units ≠ .error .exhausted := by
  intro failed
  induction units generalizing firstId with
  | nil => cases failed
  | cons unit rest ih =>
    rcases except_bind_eq_error.1 failed with first | ⟨⟨file, nextId⟩, -, behind⟩
    · rcases except_bind_eq_error.1 first with scan | ⟨tokens, -, parse⟩
      · cases scanned : Token.ofText unit.file unit.source with
        | ok tokens =>
          rw [scanned] at scan
          cases scan
        | error d =>
          rw [scanned] at scan
          cases scan
      · exact File.ofTokens_ne_exhausted tokens firstId parse
    · rcases except_bind_eq_error.1 behind with later | ⟨files, -, done⟩
      · exact ih nextId later
      · cases done

/-- **Units that do not compile have a fault**: no pass runs out of budget. -/
theorem fault_of_compileUnits {config : Config} {units : List SourceUnit} {halt : Halt}
    (failed : compileUnits config units = .error halt) : ∃ d, halt = .fault d := by
  rcases except_bind_eq_error.1 failed with parse | ⟨files, -, assemble⟩
  · cases halt with
    | fault d => exact ⟨d, rfl⟩
    | exhausted => exact absurd parse (parseUnits_ne_exhausted 0 units)
  · cases assembled : Compilation.assemble config ((units.map SourceUnit.modulePath).zip files) with
    | ok p =>
      rw [assembled] at assemble
      cases assemble
    | error d =>
      rw [assembled] at assemble
      cases assemble
      exact ⟨d, rfl⟩

/-- **Compiling misses nothing.** Whatever the configuration, the name of the file and the source,
compiling by partial operations has a result, which is that of compiling: the file, an arena that
links the symbol tree, and the same that is resolved; or the same fault, whose diagnostic is rendered
by partial operations as it is rendered otherwise. A source is parsed along a walk from the start of
its tokens; at every cursor on the walk all that is read by index is there, and a single step is such
a read. Actions in a row are on desks what they are on cursors, and so are their steps. -/
theorem compile_misses_nothing (config : Config) (file : Option String) (source : String) :
    ((∃ p first a, compile config file source = .ok p ∧
        compile? config file source = some (.ok (first, a, p.resolutions)) ∧
        p.files = [first] ∧ a.Links p.tree) ∨
      ∃ d, compile config file source = .error (.fault d) ∧
        compile? config file source = some (.error (.fault d)) ∧
        d.render? source = some (d.render source)) ∧
    ∀ tokens,
      let start := Cursor.ofTokens tokens 0
      Desk.enter tokens 0 = start.desk ∧ Moved start 0 (Parse.file .standard start) ∧
      (∀ c, start.Walks c → c.Indexed ∧ Parse.StepsByIndex c ∧
        c.desk.tokens = start.desk.tokens) ∧
      ∀ {α β : Type} (action : Parse α) (next : α → Parse β) (d : Desk),
        (action >>= next).onDesk d = (action.onDesk d).bind fun
          | .ok value between => (next value).onDesk between
          | .error halt between => some (.error halt between) := by
  constructor
  · rcases (agreed_compile config file source).outcome with
      ⟨p, ⟨first, a, found⟩, compiled, result, single, links, same⟩ | ⟨halt, failed, result⟩
    · cases same
      exact .inl ⟨p, first, a, compiled, result, single, links⟩
    · obtain ⟨d, rfl⟩ := fault_of_compileUnits failed
      exact .inr ⟨d, failed, result, d.render?_eq source⟩
  · intro tokens start
    have moved : Moved start 0 (Parse.file .standard start) :=
      Parse.moves_file Grammar.leavesEnd_standard (Cursor.ends_ofTokens tokens 0)
    refine ⟨Desk.enter_eq tokens 0, moved, fun c walks => ⟨c.indexed, Parse.stepsByIndex c, ?_⟩,
      Parse.onDesk_bind⟩
    exact walks.tokens_eq

end FrontEnd

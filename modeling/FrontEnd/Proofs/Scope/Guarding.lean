import FrontEnd.Proofs.Grammar.RootingFile
import FrontEnd.Proofs.Symbol.Following
import FrontEnd.Scope.Check

/-!
# Checking scopes by number

The scopes of a function can be checked with an arena and the number of the module. A dotted or
applied name is used by its first segment, which is read at an index and may be missing, and whether
it is declared is looked up by number.

**The law** (`Arena.checkScopes_eq`): in an arena that links a tree, the check by number of a function
whose names are rooted is the check of the function at the path of its module. No segment and no
entry is missed.
-/

namespace FrontEnd

/-- An action that checks with the frames around a point, by partial operations. -/
abbrev GuardedCheck :=
  Guarded ScopeStack

/-! ## Checks that may miss a segment or an entry -/

namespace GuardedCheck

/-- Whether a symbol is declared, which is looked up. -/
abbrev Declared :=
  String → Option Bool

/-- **Checks a use.** Only a qualified one is looked up, and only if it is not visible. -/
def use (declared : Declared) (u : Use) : GuardedCheck Unit := do
  if (← get).contains u.name then pure ()
  else
    let isDeclared ← demand (if u.isQualified then declared u.name else some false)
    if isDeclared then pure () else throw ⟨.nameNotDeclared u.name, u.position⟩

mutual
/-- **Checks an expression**, part by part. -/
def expr (declared : Declared) : Expr → GuardedCheck Unit
  | .bool _ _ | .int _ _ | .double _ _ | .string _ _ | .char _ _ => pure ()
  | .symbol text span => use declared ⟨text, span.start, false⟩
  | .name n => do
    let first ← demand n.segments[0]?
    use declared ⟨first.text, first.span.start, true⟩
  | .negate value _ => expr declared value
  | .binary _ left right _ => do
    expr declared left
    expr declared right
  | .call callee arguments _ => do
    expr declared callee
    exprs declared arguments
  | .index base position _ => do
    expr declared base
    expr declared position
  | .member base _ _ => expr declared base
  | .structLiteral _ fields _ => fieldValues declared fields
  | .arrayLiteral values _ => exprs declared values
/-- Checks expressions in their order. -/
def exprs (declared : Declared) : List Expr → GuardedCheck Unit
  | [] => pure ()
  | first :: rest => do
    expr declared first
    exprs declared rest
/-- Checks the values of fields in their order. -/
def fieldValues (declared : Declared) : List (String × Expr) → GuardedCheck Unit
  | [] => pure ()
  | (_, first) :: rest => do
    expr declared first
    fieldValues declared rest
end

/-- Checks that a word which controls a loop stands in one. -/
def control (keyword : String) (position : Position) : GuardedCheck Unit := do
  if (← get).inLoop then pure ()
  else throw ⟨.controlOutsideLoop keyword, position⟩

/-- **Checks inside a block** that is opened for the check and closed behind it. -/
def within (opened : ScopeStack → ScopeStack) (action : GuardedCheck Unit) : GuardedCheck Unit := do
  modify opened
  action
  modify .pop

mutual
/-- **Checks a statement.** -/
def stmt (declared : Declared) : Stmt → GuardedCheck Unit
  | .declare _ _ _ name initial _ => do
    expr declared initial
    modify (·.declare name)
  | .assign target value _ => do
    expr declared target
    expr declared value
  | .evaluate value _ => expr declared value
  | .breakLoop span => control "break" span.start
  | .continueLoop span => control "continue" span.start
  | .loop condition body _ => do
    expr declared condition
    within Check.loopBody (stmts declared body)
  | .branch first others otherwise _ => do
    arm declared first
    arms declared others
    within .pushBlock (stmts declared otherwise)
  | .returnWith none _ => pure ()
  | .returnWith (some value) _ => expr declared value
  | .select subject cases otherwise _ => do
    expr declared subject
    casesOf declared cases
    lastCase declared otherwise
/-- Checks the statements of a block in their order. -/
def stmts (declared : Declared) : List Stmt → GuardedCheck Unit
  | [] => pure ()
  | first :: rest => do
    stmt declared first
    stmts declared rest
/-- Checks a condition and the block it guards. -/
def arm (declared : Declared) : Arm → GuardedCheck Unit
  | .mk condition body => do
    expr declared condition
    within .pushBlock (stmts declared body)
/-- Checks further arms. -/
def arms (declared : Declared) : List Arm → GuardedCheck Unit
  | [] => pure ()
  | first :: rest => do
    arm declared first
    arms declared rest
/-- Checks a pattern and what it leads to. -/
def caseOf (declared : Declared) : Case → GuardedCheck Unit
  | .mk pattern body => do
    expr declared pattern
    caseBody declared body
/-- Checks the cases of a selection. -/
def casesOf (declared : Declared) : List Case → GuardedCheck Unit
  | [] => pure ()
  | first :: rest => do
    caseOf declared first
    casesOf declared rest
/-- Checks what a pattern leads to, in a block of its own. -/
def caseBody (declared : Declared) : CaseBody → GuardedCheck Unit
  | .block body => within .pushBlock (stmts declared body)
  | .value value => within .pushBlock (expr declared value)
/-- Checks the last case of a selection. -/
def lastCase (declared : Declared) : Option CaseBody → GuardedCheck Unit
  | none => pure ()
  | some body => caseBody declared body
end

end GuardedCheck

/-! ## Uses one by one -/

namespace Check

variable {declared : Declared}

/-- Checks uses in their order. -/
def uses (declared : Declared) (us : List Use) : Check Unit := do
  let s ← get
  match us.find? (fun use => !admits declared s use) with
  | none => pure ()
  | some use => throw ⟨.nameNotDeclared use.name, use.position⟩

/-- Uses in a row are checked in a row. -/
theorem uses_append (first second : List Use) :
    uses declared (first ++ second) =
      (uses declared first >>= fun _ => uses declared second) := by
  funext s
  show _ = EStateM.bind (uses declared first) (fun _ => uses declared second) s
  unfold EStateM.bind
  simp only [uses, get_bind, List.find?_append]
  cases first.find? (fun use => !admits declared s use) with
  | none => rfl
  | some use => rfl

/-- A check by partial operations gives what a check gives. -/
def AnsweredBy (action : Check Unit) (guarded : GuardedCheck Unit) : Prop :=
  Answers Eq action guarded fun _ s _ r => s = r

variable {look : GuardedCheck.Declared}

theorem AnsweredBy.done : AnsweredBy (pure ()) (pure ()) :=
  .pure fun _ _ same => same

/-- Checks in a row are answered in a row. -/
theorem AnsweredBy.bind {first second : Check Unit} {guarded further : GuardedCheck Unit}
    (answers : AnsweredBy first guarded) (later : AnsweredBy second further) :
    AnsweredBy (first >>= fun _ => second) (guarded >>= fun _ => further) :=
  Answers.bind answers fun _ _ => later

/-- A check inside a block is answered by one inside the block. -/
theorem AnsweredBy.within {action : Check Unit} {guarded : GuardedCheck Unit}
    {opened : ScopeStack → ScopeStack} (answers : AnsweredBy action guarded) :
    AnsweredBy (Check.within opened action) (GuardedCheck.within opened guarded) := by
  rintro s _ rfl
  have answered := @answers (opened s) (opened s) rfl
  show Answered _ (Check.within opened action s)
    (guarded (opened s) >>= fun r => pure ((), r.2.pop) : Checked (Unit × ScopeStack))
  unfold Check.within
  generalize action (opened s) = result, guarded (opened s) = other at answered
  cases answered with
  | ended same =>
    subst same
    exact .ended rfl
  | halted => exact .halted

/-- A use is checked alike when every symbol can be looked up. -/
theorem answered_use (looks : ∀ name, look name = some (declared name)) (u : Use) :
    AnsweredBy (uses declared [u]) (GuardedCheck.use look u) := by
  rintro s _ rfl
  have looked : (if u.isQualified then look u.name else some false) =
      some (u.isQualified && declared u.name) := by
    cases u.isQualified <;> simp [looks]
  rw [uses, GuardedCheck.use, looked, get_bind, List.find?_singleton]
  show Answered _ _ ((if s.contains u.name then pure ()
    else if u.isQualified && declared u.name then pure ()
    else throw ⟨.nameNotDeclared u.name, u.position⟩ : GuardedCheck Unit) s)
  rw [admits]
  cases s.contains u.name with
  | true => exact .ended rfl
  | false =>
    cases u.isQualified && declared u.name with
    | true => exact .ended rfl
    | false => exact .halted

mutual
/-- **An expression whose names are rooted is checked alike**: its uses are those of its parts. -/
theorem answered_expr (looks : ∀ name, look name = some (declared name)) (value : Expr)
    (rooted : value.Rooted) :
    AnsweredBy (uses declared value.uses) (GuardedCheck.expr look value) := by
  cases value with
  | bool _ _ | int _ _ | double _ _ | string _ _ | char _ _ => exact .done
  | symbol text span => exact answered_use looks _
  | name n =>
    have isRooted := rooted n (List.mem_singleton_self n)
    obtain ⟨segments, span⟩ := n
    cases isRooted with
    | mk some arguments =>
      cases segments with
      | nil => exact absurd rfl some
      | cons first rest =>
        exact Answers.demand rfl (answered_use looks ⟨first.text, first.span.start, true⟩)
  | negate value span => exact answered_expr looks value rooted
  | binary operator left right span =>
    obtain ⟨isLeft, isRight⟩ := List.forall_mem_append.1 rooted
    rw [Expr.uses, uses_append]
    exact .bind (answered_expr looks left isLeft) (answered_expr looks right isRight)
  | call callee arguments span =>
    obtain ⟨isCallee, areArguments⟩ := List.forall_mem_append.1 rooted
    rw [Expr.uses, uses_append]
    exact .bind (answered_expr looks callee isCallee) (answered_exprs looks arguments areArguments)
  | index base position span =>
    obtain ⟨isBase, isPosition⟩ := List.forall_mem_append.1 rooted
    rw [Expr.uses, uses_append]
    exact .bind (answered_expr looks base isBase) (answered_expr looks position isPosition)
  | member base name span => exact answered_expr looks base rooted
  | structLiteral isMutable fields span => exact answered_fieldValues looks fields rooted
  | arrayLiteral values span => exact answered_exprs looks values rooted
/-- Expressions whose names are rooted are checked alike. -/
theorem answered_exprs (looks : ∀ name, look name = some (declared name)) (values : List Expr)
    (rooted : ∀ name ∈ Expr.namesOfList values, name.Rooted) :
    AnsweredBy (uses declared (Expr.usesOfList values)) (GuardedCheck.exprs look values) := by
  cases values with
  | nil => exact .done
  | cons first rest =>
    obtain ⟨isFirst, areRest⟩ := List.forall_mem_append.1 rooted
    rw [Expr.usesOfList, uses_append]
    exact .bind (answered_expr looks first isFirst) (answered_exprs looks rest areRest)
/-- The values of fields whose names are rooted are checked alike. -/
theorem answered_fieldValues (looks : ∀ name, look name = some (declared name))
    (fields : List (String × Expr)) (rooted : ∀ name ∈ Expr.namesOfFields fields, name.Rooted) :
    AnsweredBy (uses declared (Expr.usesOfFields fields))
      (GuardedCheck.fieldValues look fields) := by
  cases fields with
  | nil => exact .done
  | cons field rest =>
    obtain ⟨text, first⟩ := field
    obtain ⟨isFirst, areRest⟩ := List.forall_mem_append.1 rooted
    rw [Expr.usesOfFields, uses_append]
    exact .bind (answered_expr looks first isFirst) (answered_fieldValues looks rest areRest)
end

theorem answered_control (keyword : String) (position : Position) :
    AnsweredBy (control keyword position) (GuardedCheck.control keyword position) := by
  rintro s _ rfl
  rw [control, GuardedCheck.control, get_bind]
  show Answered _ _ ((if s.inLoop then pure () else throw _ : GuardedCheck Unit) s)
  cases s.inLoop with
  | true => exact .ended rfl
  | false => exact .halted

/-! ## Statements one by one -/

/-- What a branch consists of is rooted when the branch is everywhere. -/
theorem rooted_of_branch {first : Arm} {others : List Arm} {otherwise : List Stmt} {span : Span}
    (rooted : (Stmt.branch first others otherwise span).Everywhere Stmt.Rooted) :
    first.Rooted ∧ (∀ x ∈ others, x.Rooted) ∧ ∀ x ∈ otherwise, x.Everywhere Stmt.Rooted := by
  obtain ⟨own, blocks⟩ := Stmt.everywhere_iff.1 rooted
  have values := (Stmt.rooted_iff.1 own).2
  simp only [Stmt.values, Stmt.blocks, List.forall_mem_cons, List.forall_mem_map,
    List.forall_mem_append, List.mem_singleton, forall_eq] at values blocks
  obtain ⟨⟨body, bodies⟩, last⟩ := blocks
  exact ⟨⟨values.1, body⟩, fun x mem => ⟨values.2 x mem, bodies x mem⟩, last⟩

/-- What a selection consists of is rooted when the selection is everywhere. -/
theorem rooted_of_select {subject : Expr} {cases : List Case} {otherwise : Option CaseBody}
    {span : Span} (rooted : (Stmt.select subject cases otherwise span).Everywhere Stmt.Rooted) :
    subject.Rooted ∧ (∀ x ∈ cases, x.Rooted) ∧ ∀ body ∈ otherwise, body.Rooted := by
  obtain ⟨own, blocks⟩ := Stmt.everywhere_iff.1 rooted
  have values := (Stmt.rooted_iff.1 own).2
  simp only [Stmt.values, Stmt.blocks, List.forall_mem_cons, List.forall_mem_map,
    List.forall_mem_append, List.forall_mem_filterMap, List.cons_append] at values blocks
  obtain ⟨isSubject, patterns, led, lastLed⟩ := values
  refine ⟨isSubject, ?_, ?_⟩
  · intro x mem
    exact ⟨patterns x mem, led x mem, blocks.1 x mem⟩
  · intro body last
    have mem := Option.mem_toList.2 last
    exact ⟨lastLed body mem, blocks.2 body mem⟩

mutual
/-- **A statement that is rooted everywhere is checked alike.** -/
theorem answered_stmt (looks : ∀ name, look name = some (declared name)) (x : Stmt)
    (rooted : x.Everywhere Stmt.Rooted) :
    AnsweredBy (stmt declared x) (GuardedCheck.stmt look x) := by
  obtain ⟨own, blocks⟩ := Stmt.everywhere_iff.1 rooted
  have values := (Stmt.rooted_iff.1 own).2
  cases x with
  | declare isMutable type isArray name initial span =>
    have declares : AnsweredBy (modify (·.declare name)) (modify (·.declare name)) := by
      apply Answers.change
      rintro s _ rfl
      rfl
    exact .bind (answered_expr looks initial (values initial List.mem_cons_self)) declares
  | assign target value span =>
    obtain ⟨isTarget, areValues⟩ := List.forall_mem_cons.1 values
    exact .bind (answered_expr looks target isTarget)
      (answered_expr looks value (areValues value List.mem_cons_self))
  | evaluate value span => exact answered_expr looks value (values value List.mem_cons_self)
  | breakLoop span => exact answered_control "break" span.start
  | continueLoop span => exact answered_control "continue" span.start
  | loop condition body span =>
    have isBody := blocks (body, true) List.mem_cons_self
    exact .bind (answered_expr looks condition (values condition List.mem_cons_self))
      (.within (answered_stmts looks body isBody))
  | branch first others otherwise span =>
    obtain ⟨isFirst, areOthers, isLast⟩ := rooted_of_branch rooted
    exact .bind (answered_arm looks first isFirst)
      (.bind (answered_arms looks others areOthers) (.within (answered_stmts looks otherwise isLast)))
  | returnWith value span =>
    cases value with
    | none => exact .done
    | some value => exact answered_expr looks value (values value List.mem_cons_self)
  | select subject cases otherwise span =>
    obtain ⟨isSubject, areCases, isLast⟩ := rooted_of_select rooted
    exact .bind (answered_expr looks subject isSubject)
      (.bind (answered_cases looks cases areCases) (answered_lastCase looks otherwise isLast))
/-- **Statements that are rooted everywhere are checked alike**, one after another. -/
theorem answered_stmts (looks : ∀ name, look name = some (declared name)) (body : List Stmt)
    (rooted : ∀ x ∈ body, x.Everywhere Stmt.Rooted) :
    AnsweredBy (stmts declared body) (GuardedCheck.stmts look body) := by
  cases body with
  | nil => exact .done
  | cons first rest =>
    obtain ⟨isFirst, areRest⟩ := List.forall_mem_cons.1 rooted
    exact .bind (answered_stmt looks first isFirst) (answered_stmts looks rest areRest)
theorem answered_arm (looks : ∀ name, look name = some (declared name)) (x : Arm)
    (rooted : x.Rooted) : AnsweredBy (arm declared x) (GuardedCheck.arm look x) := by
  cases x with
  | mk condition body =>
    exact .bind (answered_expr looks condition rooted.condition)
      (.within (answered_stmts looks body rooted.body))
theorem answered_arms (looks : ∀ name, look name = some (declared name)) (xs : List Arm)
    (rooted : ∀ x ∈ xs, x.Rooted) : AnsweredBy (arms declared xs) (GuardedCheck.arms look xs) := by
  cases xs with
  | nil => exact .done
  | cons first rest =>
    obtain ⟨isFirst, areRest⟩ := List.forall_mem_cons.1 rooted
    exact .bind (answered_arm looks first isFirst) (answered_arms looks rest areRest)
theorem answered_case (looks : ∀ name, look name = some (declared name)) (x : Case)
    (rooted : x.Rooted) : AnsweredBy (caseOf declared x) (GuardedCheck.caseOf look x) := by
  cases x with
  | mk pattern body =>
    exact .bind (answered_expr looks pattern rooted.pattern)
      (answered_caseBody looks body rooted.body)
theorem answered_cases (looks : ∀ name, look name = some (declared name)) (xs : List Case)
    (rooted : ∀ x ∈ xs, x.Rooted) :
    AnsweredBy (casesOf declared xs) (GuardedCheck.casesOf look xs) := by
  cases xs with
  | nil => exact .done
  | cons first rest =>
    obtain ⟨isFirst, areRest⟩ := List.forall_mem_cons.1 rooted
    exact .bind (answered_case looks first isFirst) (answered_cases looks rest areRest)
theorem answered_caseBody (looks : ∀ name, look name = some (declared name)) (x : CaseBody)
    (rooted : x.Rooted) : AnsweredBy (caseBody declared x) (GuardedCheck.caseBody look x) := by
  cases x with
  | block body => exact .within (answered_stmts looks body (rooted.block body rfl))
  | value value => exact .within (answered_expr looks value (rooted.value value rfl))
theorem answered_lastCase (looks : ∀ name, look name = some (declared name)) (x : Option CaseBody)
    (rooted : ∀ body ∈ x, body.Rooted) :
    AnsweredBy (lastCase declared x) (GuardedCheck.lastCase look x) := by
  cases x with
  | none => exact .done
  | some body => exact answered_caseBody looks body (rooted body rfl)
end

end Check

/-! ## What a function sees, by number -/

namespace Arena

/-- Whether an entry is the root or a module. -/
def isModule? (a : Arena) (id : Nat) : Option Bool :=
  if id = Tree.root then some true
  else (a.linked? id).map fun entry => decide (entry.claim.kind = .file)

/-- **Whether an entry is visible in every function**; where it stands is looked at by number. -/
def isGlobal? (a : Arena) (entry : Linked) : Option Bool :=
  match entry.claim.kind with
  | .function | .enum => entry.parent.elim (some false) a.isModule?
  | .builtin => some (entry.claim.value = .builtin .function)
  | _ => some false

/-- The names of those of several entries that are visible in every function. -/
def globalsAmong? (a : Arena) : List Linked → Option (List String)
  | [] => some []
  | entry :: rest => do
    let isGlobal ← a.isGlobal? entry
    let names ← a.globalsAmong? rest
    return if isGlobal then entry.segment :: names else names

/-- Whether something is declared below an entry at a segment. -/
def knows? (a : Arena) (id : Nat) (segment : String) : Option Bool :=
  (a.childWith? Claim.isKnown id segment).map Option.isSome

/-- **Whether a module or the root declares a symbol**; the root is only looked at for what the
module does not declare. -/
def declares? (a : Arena) (module : Nat) (name : String) : Option Bool := do
  if ← a.knows? module name then return true else a.knows? Tree.root name

/-- **Checks the scopes of a function** that is declared in the module with a number. -/
def checkScopes (a : Arena) (module : Nat) (function : FnDecl) : Checked Unit := do
  let globals ← demand (a.globalsAmong? a.entries)
  let own := if function.isMethod then ["this"] else []
  let base : Frame := ⟨globals ++ function.inputs.map Parameter.name ++ own, false⟩
  let opened := (ScopeStack.empty.push base).push (.blank false)
  discard ((GuardedCheck.stmts (a.declares? module) function.body).run opened)

variable {a : Arena} {t : Tree} {path module : Path} {id : Nat}

theorem Links.isModule?_eq (links : a.Links t) (found : t.find? path = some id) :
    a.isModule? id = some (t.isModule path) := by
  unfold isModule? Tree.isModule
  by_cases atRoot : id = Tree.root
  · rw [atRoot] at found
    rw [if_pos atRoot, Tree.eq_of_find? found links.hasRoot]
    rfl
  · have below : path ≠ [] := by
      rintro rfl
      exact atRoot (Option.some.inj (found.symm.trans links.hasRoot))
    obtain ⟨entry, here, stands⟩ := links.stands found
    rw [if_neg atRoot, here, stands.claim, List.isEmpty_eq_false_iff.2 below]
    rfl

/-- An entry is visible in every function when the node at its path is. -/
theorem Links.isGlobal?_eq (links : a.Links t) {entry : Linked} {node : Node}
    (stands : entry.StandsAt t node.path) (same : entry.claim = node.claim) :
    a.isGlobal? entry = some (t.isGlobal node) := by
  have around : entry.parent.elim (some false) a.isModule? =
      some (!node.path.isEmpty && t.isModule node.path.dropLast) := by
    by_cases atRoot : node.path = []
    · rw [stands.parent, if_pos atRoot, atRoot]
      rfl
    · have mem : node.path ∈ t.paths := Tree.mem_paths_iff.2 ⟨_, stands.claim⟩
      obtain ⟨parent, up, found⟩ := stands.above links.isMap mem atRoot
      rw [up, Option.elim_some, links.isModule?_eq found, List.isEmpty_eq_false_iff.2 atRoot]
      rfl
  unfold isGlobal? Tree.isGlobal
  rw [same]
  cases node.claim.kind with
  | function | enum => exact around
  | _ => rfl

/-- The visible names of entries are those of the nodes that they stand for. -/
theorem globalsAmong?_eq_map {entries : List Linked} {nodes : List Node}
    (alike : List.Forall₂ (fun entry node => entry.segment = node.segment ∧
      a.isGlobal? entry = some (t.isGlobal node)) entries nodes) :
    a.globalsAmong? entries = some ((nodes.filter t.isGlobal).map Node.segment) := by
  induction alike with
  | nil => rfl
  | @cons entry node _ _ here _ ih =>
    rw [globalsAmong?, here.2, ih, List.filter_cons]
    cases t.isGlobal node with
    | true =>
      rw [if_pos rfl, List.map_cons, ← here.1]
      rfl
    | false => rfl

/-- **The names that are visible in every function** are read off the arena. -/
theorem Links.globalsAmong?_eq (links : a.Links t) :
    a.globalsAmong? a.entries = some t.globals := by
  apply globalsAmong?_eq_map
  refine List.forall₂_iff_get.2 ⟨links.size, fun id insideEntries inside => ?_⟩
  have here : t.node? id = some (t.nodes.get ⟨id, inside⟩) := List.getElem?_eq_getElem inside
  generalize t.nodes.get ⟨id, inside⟩ = node at here
  have atPath : t.pathOf id = node.path := by rw [Tree.pathOf, here, Option.elim_some]
  obtain ⟨entry, there, stands⟩ := links.stands (links.isMap.find?_eq_some_iff.2 ⟨inside, atPath⟩)
  have claimed := links.isMap.claimAt?_eq_some_iff.2 ⟨id, node, here, atPath, rfl⟩
  have same : entry.claim = node.claim := Option.some.inj (stands.claim.symm.trans claimed)
  obtain ⟨_, rfl⟩ := List.getElem?_eq_some_iff.1 there
  exact ⟨stands.segment, links.isGlobal?_eq stands same⟩

theorem Links.knows?_eq (links : a.Links t) (found : t.find? path = some id) (segment : String) :
    a.knows? id segment = some ((t.claimAt? (path ++ [segment])).any Claim.isKnown) := by
  have located := links.located_childWith? found Claim.isKnown segment
  rw [knows?]
  generalize a.childWith? Claim.isKnown id segment = search at located
  by_cases known : (t.claimAt? (path ++ [segment])).any Claim.isKnown
  · rw [if_pos known] at located
    cases located
    rw [known]
    rfl
  · rw [if_neg known] at located
    cases located
    rw [eq_false_of_ne_true known]
    rfl

/-- Whether a symbol is declared is looked up by number. -/
theorem Links.declares?_eq (links : a.Links t) (found : t.find? module = some id) (name : String) :
    a.declares? id name = some (t.declares module name) := by
  rw [declares?, links.knows?_eq found, links.knows?_eq links.hasRoot, Tree.declares,
    List.any_cons, List.any_cons, List.any_nil, Bool.or_false]
  cases (t.claimAt? (module ++ [name])).any Claim.isKnown <;> rfl

/-- **The check of a function by the number of its module is the check at the path of the module**,
if its names are rooted: the first segment of a name is never missed, nor an entry. -/
theorem Links.checkScopes_eq (links : a.Links t) (found : t.find? module = some id)
    {function : FnDecl} (rooted : ∀ x ∈ function.body, x.Everywhere Stmt.Rooted) :
    a.checkScopes id function = some (t.checkScopes module function) := by
  have answers := Check.answered_stmts (links.declares?_eq found) function.body rooted
  have guardedRun : a.checkScopes id function =
      (GuardedCheck.stmts (a.declares? id) function.body
        ((ScopeStack.empty.push (function.baseFrame t)).push (.blank false)) >>=
          fun _ => pure () : Checked Unit) := by
    rw [checkScopes, links.globalsAmong?_eq, demand_some, Checked.bind_of_ok rfl]
    rfl
  rw [guardedRun]
  unfold Tree.checkScopes EStateM.run
  rcases answers.outcome (s := (ScopeStack.empty.push (function.baseFrame t)).push (.blank false))
    rfl with ⟨_, _, _, _, run, answered, -⟩ | ⟨d, _, run, answered⟩
  · simp only [run, answered]
    rfl
  · simp only [run, answered]
    rfl

end Arena

end FrontEnd

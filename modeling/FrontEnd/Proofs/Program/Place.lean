import FrontEnd.Program.Stmt
import FrontEnd.Program.Use

/-!
# Places in a program

Where an expression stands in a larger one, and where a statement stands in the body of a function.
Both are said of the tree alone, with no order of visiting, so that what a check or a traversal
does can be held against them.

An expression stands in another when parts of parts lead down to it (`Expr.Within`). A statement
stands in a body with the statements before it, in its own block and in the blocks around it, and
in a loop or not (`StandsIn`).

**The laws** (`Expr.mem_uses_iff`, `standsIn_cons_iff`): the uses in an expression are those of the
expressions that stand in it, each at its own place; and what stands in a body is its first
statement, what stands in a block of it, or what stands in the rest with the first statement before
it.
-/

namespace FrontEnd

/-! ## Expressions in expressions -/

namespace Expr

/-- The expressions that an expression is put together from. -/
def parts : Expr → List Expr
  | bool _ _ | int _ _ | double _ _ | string _ _ | char _ _ | symbol _ _ | name _ => []
  | negate value _ => [value]
  | binary _ left right _ => [left, right]
  | call callee arguments _ => callee :: arguments
  | index base position _ => [base, position]
  | member base _ _ => [base]
  | structLiteral _ fields _ => fields.map Prod.snd
  | arrayLiteral values _ => values

/-- **An expression within another**: that expression itself, or one within a part of it. -/
inductive Within (inner : Expr) : Expr → Prop
  | self : Within inner inner
  | part {outer part : Expr} : part ∈ outer.parts → Within inner part → Within inner outer

/-- The use that an expression is by itself: a symbol, or the first segment of a dotted or applied
name. -/
def use? : Expr → Option Use
  | symbol text span => some ⟨text, span.start, false⟩
  | name n => n.segments.head?.map fun segment => ⟨segment.text, segment.span.start, true⟩
  | _ => none

/-- **An expression mentions a use** when the use is that of an expression within it. -/
def Mentions (value : Expr) (use : Use) : Prop :=
  ∃ inner, Within inner value ∧ inner.use? = some use

theorem usesOfList_eq (values : List Expr) : usesOfList values = values.flatMap uses := by
  induction values with
  | nil => rfl
  | cons value rest ih => rw [usesOfList, ih, List.flatMap_cons]

theorem usesOfFields_eq (fields : List (String × Expr)) :
    usesOfFields fields = (fields.map Prod.snd).flatMap uses := by
  induction fields with
  | nil => rfl
  | cons field rest ih => rw [usesOfFields, ih, List.map_cons, List.flatMap_cons]

/-- The uses in an expression are its own and those of its parts. -/
theorem uses_eq (value : Expr) : value.uses = value.use?.toList ++ value.parts.flatMap uses := by
  cases value with
  | name n => simp [uses, use?, parts, Option.toList_map]
  | call callee arguments => simp [uses, use?, parts, usesOfList_eq]
  | structLiteral isMutable fields => simp [uses, use?, parts, usesOfFields_eq]
  | arrayLiteral values => simp [uses, use?, parts, usesOfList_eq]
  | _ => simp [uses, use?, parts]

/-- A part is smaller than the whole. -/
theorem sizeOf_part_lt {outer part : Expr} (mem : part ∈ outer.parts) :
    sizeOf part < sizeOf outer := by
  cases outer with
  | call callee arguments =>
    rcases List.mem_cons.1 mem with rfl | mem
    · simp only [call.sizeOf_spec]
      omega
    · have := List.sizeOf_lt_of_mem mem
      simp only [call.sizeOf_spec]
      omega
  | structLiteral isMutable fields =>
    change part ∈ fields.map Prod.snd at mem
    obtain ⟨⟨text, value⟩, isField, rfl⟩ := List.mem_map.1 mem
    have := List.sizeOf_lt_of_mem isField
    simp only [Prod.mk.sizeOf_spec] at this
    simp only [structLiteral.sizeOf_spec]
    omega
  | arrayLiteral values =>
    change part ∈ values at mem
    have := List.sizeOf_lt_of_mem mem
    simp only [arrayLiteral.sizeOf_spec]
    omega
  | binary operator left right =>
    simp only [parts, List.mem_cons, List.not_mem_nil, or_false] at mem
    rcases mem with rfl | rfl <;> simp only [binary.sizeOf_spec] <;> omega
  | index base position =>
    simp only [parts, List.mem_cons, List.not_mem_nil, or_false] at mem
    rcases mem with rfl | rfl <;> simp only [index.sizeOf_spec] <;> omega
  | negate value =>
    obtain rfl := List.mem_singleton.1 mem
    simp only [negate.sizeOf_spec]
    omega
  | member base =>
    obtain rfl := List.mem_singleton.1 mem
    simp only [member.sizeOf_spec]
    omega
  | _ => cases mem

theorem mentions_of_mem_uses (value : Expr) {use : Use} (mem : use ∈ value.uses) :
    value.Mentions use := by
  rw [uses_eq, List.mem_append] at mem
  rcases mem with own | ofPart
  · exact ⟨value, .self, Option.mem_toList.1 own⟩
  · obtain ⟨part, isPart, mem⟩ := List.mem_flatMap.1 ofPart
    have := sizeOf_part_lt isPart
    obtain ⟨inner, within, own⟩ := mentions_of_mem_uses part mem
    exact ⟨inner, .part isPart within, own⟩
termination_by value

/-- **The uses in an expression are those of the expressions within it.** -/
theorem mem_uses_iff {value : Expr} {use : Use} : use ∈ value.uses ↔ value.Mentions use := by
  refine ⟨mentions_of_mem_uses value, ?_⟩
  rintro ⟨inner, within, own⟩
  induction within with
  | self =>
    rw [uses_eq, own]
    exact List.mem_append_left _ (List.mem_singleton_self _)
  | part isPart _ ih =>
    rw [uses_eq]
    exact List.mem_append_right _ (List.mem_flatMap.2 ⟨_, isPart, ih⟩)

end Expr

/-! ## Statements in bodies -/

/-- The condition of an arm. -/
def Arm.condition : Arm → Expr
  | .mk condition _ => condition

/-- The statements that an arm guards. -/
def Arm.body : Arm → List Stmt
  | .mk _ body => body

/-- The pattern of a case. -/
def Case.pattern : Case → Expr
  | .mk pattern _ => pattern

/-- What a case leads to. -/
def Case.body : Case → CaseBody
  | .mk _ body => body

/-- The expression that a pattern leads to, if it leads to one. -/
def CaseBody.value? : CaseBody → Option Expr
  | .block _ => none
  | .value found => some found

/-- The statements that a pattern leads to, if it leads to statements. -/
def CaseBody.block? : CaseBody → Option (List Stmt)
  | .block body => some body
  | .value _ => none

namespace Stmt

/-- **The expressions of a statement** that stand in none of its blocks. -/
def values : Stmt → List Expr
  | declare _ _ _ _ initial _ => [initial]
  | assign target value _ => [target, value]
  | evaluate value _ => [value]
  | breakLoop _ | continueLoop _ => []
  | loop condition _ _ => [condition]
  | branch first others _ _ => first.condition :: others.map Arm.condition
  | returnWith value _ => value.toList
  | select subject cases otherwise _ =>
    subject :: cases.map Case.pattern ++
      (cases.map Case.body ++ otherwise.toList).filterMap CaseBody.value?

/-- **The blocks of a statement**, each with whether it is the body of a loop. -/
def blocks : Stmt → List (List Stmt × Bool)
  | loop _ body _ => [(body, true)]
  | branch first others otherwise _ =>
    (first.body :: others.map Arm.body ++ [otherwise]).map (·, false)
  | select _ cases otherwise _ =>
    ((cases.map Case.body ++ otherwise.toList).filterMap CaseBody.block?).map (·, false)
  | declare _ _ _ _ _ _ | assign _ _ _ | evaluate _ _ | breakLoop _ | continueLoop _
  | returnWith _ _ => []

/-- The name of the variable that a statement declares. -/
def declared? : Stmt → Option String
  | declare _ _ _ name _ _ => some name
  | _ => none

/-- Whether a statement ends the loop around it or begins its next round. -/
def isLoopControl : Stmt → Bool
  | breakLoop _ | continueLoop _ => true
  | _ => false

end Stmt

/-- **A statement stands in a body** behind the statements `before`, which stand in front of it in
its own block or in front of what holds it in a block around it; `inLoop` says whether it stands in
the body of a loop of this body. -/
inductive StandsIn : List Stmt → List Stmt → Bool → Stmt → Prop
  | here {before behind : List Stmt} {stmt : Stmt} :
    StandsIn (before ++ stmt :: behind) before false stmt
  | inside {front back block before : List Stmt} {outer stmt : Stmt} {isLoop inLoop : Bool} :
    (block, isLoop) ∈ outer.blocks → StandsIn block before inLoop stmt →
      StandsIn (front ++ outer :: back) (front ++ before) (isLoop || inLoop) stmt

/-- Nothing stands in an empty body. -/
theorem not_standsIn_nil {before : List Stmt} {inLoop : Bool} {stmt : Stmt} :
    ¬ StandsIn [] before inLoop stmt := by
  intro stands
  generalize empty : ([] : List Stmt) = body at stands
  cases stands <;> simp at empty

/-- A statement that stands in the rest of a body stands behind its first statement. -/
theorem StandsIn.cons {body before : List Stmt} {inLoop : Bool} {stmt : Stmt} (first : Stmt)
    (stands : StandsIn body before inLoop stmt) :
    StandsIn (first :: body) (first :: before) inLoop stmt := by
  cases stands with
  | @here before behind => exact @StandsIn.here (first :: before) behind stmt
  | @inside front back block before outer stmt isLoop inLoop mem inner =>
    exact @StandsIn.inside (first :: front) back block before outer stmt isLoop inLoop mem inner

/-- **What stands in a body**: its first statement, what stands in a block of it, and what stands
in the rest. -/
theorem standsIn_cons_iff {first stmt : Stmt} {rest before : List Stmt} {inLoop : Bool} :
    StandsIn (first :: rest) before inLoop stmt ↔
      (before = [] ∧ inLoop = false ∧ stmt = first) ∨
      (∃ block isLoop inner, (block, isLoop) ∈ first.blocks ∧
        StandsIn block before inner stmt ∧ inLoop = (isLoop || inner)) ∨
      ∃ earlier, before = first :: earlier ∧ StandsIn rest earlier inLoop stmt := by
  constructor
  · intro stands
    generalize shape : first :: rest = body at stands
    cases stands with
    | @here before behind =>
      cases before with
      | nil =>
        obtain ⟨rfl, rfl⟩ := List.cons.inj shape
        exact .inl ⟨rfl, rfl, rfl⟩
      | cons head earlier =>
        obtain ⟨rfl, rfl⟩ := List.cons.inj shape
        exact .inr (.inr ⟨earlier, rfl, .here⟩)
    | @inside front back block before outer _ isLoop inner mem stands =>
      cases front with
      | nil =>
        obtain ⟨rfl, rfl⟩ := List.cons.inj shape
        exact .inr (.inl ⟨block, isLoop, inner, mem, stands, rfl⟩)
      | cons head front =>
        obtain ⟨rfl, rfl⟩ := List.cons.inj shape
        exact .inr (.inr ⟨front ++ before, rfl, .inside mem stands⟩)
  · rintro (⟨rfl, rfl, rfl⟩ | ⟨block, isLoop, inner, mem, stands, rfl⟩ | ⟨earlier, rfl, stands⟩)
    · exact @StandsIn.here [] rest _
    · exact @StandsIn.inside [] rest block before first stmt isLoop inner mem stands
    · exact stands.cons first

/-! ## All statements of a body -/

/-- A block is smaller than the statement that holds it. -/
theorem sizeOf_block_lt {stmt : Stmt} {block : List Stmt} {isLoop : Bool}
    (mem : (block, isLoop) ∈ stmt.blocks) : sizeOf block < sizeOf stmt := by
  cases stmt with
  | loop condition body span =>
    obtain ⟨rfl, -⟩ := Prod.mk.inj (List.mem_singleton.1 mem)
    simp only [Stmt.loop.sizeOf_spec]
    omega
  | branch first others otherwise span =>
    simp only [Stmt.blocks, List.mem_map, Prod.mk.injEq] at mem
    obtain ⟨_, mem, rfl, -⟩ := mem
    simp only [Stmt.branch.sizeOf_spec]
    rcases List.mem_append.1 mem with mem | mem
    · rcases List.mem_cons.1 mem with rfl | mem
      · obtain ⟨condition, body⟩ := first
        simp only [Arm.body, Arm.mk.sizeOf_spec]
        omega
      · obtain ⟨⟨condition, body⟩, isOther, rfl⟩ := List.mem_map.1 mem
        have := List.sizeOf_lt_of_mem isOther
        simp only [Arm.body, Arm.mk.sizeOf_spec] at this ⊢
        omega
    · obtain rfl := List.mem_singleton.1 mem
      omega
  | select subject cases otherwise span =>
    simp only [Stmt.blocks, List.mem_map, Prod.mk.injEq, List.mem_filterMap] at mem
    obtain ⟨_, ⟨body, mem, isBlock⟩, rfl, -⟩ := mem
    have smaller : sizeOf body < sizeOf (Stmt.select subject cases otherwise span) := by
      simp only [Stmt.select.sizeOf_spec]
      rcases List.mem_append.1 mem with mem | mem
      · obtain ⟨⟨pattern, led⟩, isCase, rfl⟩ := List.mem_map.1 mem
        have := List.sizeOf_lt_of_mem isCase
        simp only [Case.body, Case.mk.sizeOf_spec] at this ⊢
        omega
      · obtain rfl := Option.mem_toList.1 mem
        simp only [Option.some.sizeOf_spec]
        omega
    cases body with
    | block statements =>
      cases isBlock
      simp only [CaseBody.block.sizeOf_spec] at smaller
      omega
    | value value => cases isBlock
  | _ => cases mem

/-- **Every statement of a body**, each in front of those of its blocks. -/
def statements : List Stmt → List Stmt
  | [] => []
  | first :: rest =>
    first :: first.blocks.attach.flatMap (fun block => statements block.1.1) ++ statements rest
termination_by body => sizeOf body
decreasing_by
  · have : sizeOf block.val.fst < sizeOf first := sizeOf_block_lt block.property
    simp only [List.cons.sizeOf_spec]
    omega
  · simp only [List.cons.sizeOf_spec]
    omega

theorem statements_cons (first : Stmt) (rest : List Stmt) :
    statements (first :: rest) =
      first :: first.blocks.flatMap (fun block => statements block.1) ++ statements rest := by
  have unattached := List.flatMap_map Subtype.val
    (fun block : List Stmt × Bool => statements block.1) first.blocks.attach
  rw [List.attach_map_subtype_val] at unattached
  rw [statements, unattached]

/-- **Induction over a body**: what holds of a body with a first statement when it holds of the
blocks of that statement and of the rest holds of every body. -/
theorem bodyInduction {motive : List Stmt → Prop} (nil : motive [])
    (cons : ∀ first rest, (∀ block isLoop, (block, isLoop) ∈ first.blocks → motive block) →
      motive rest → motive (first :: rest)) (body : List Stmt) : motive body := by
  cases body with
  | nil => exact nil
  | cons first rest =>
    refine cons first rest (fun block isLoop mem => ?_) (bodyInduction nil cons rest)
    have := sizeOf_block_lt mem
    exact bodyInduction nil cons block
termination_by sizeOf body
decreasing_by
  · simp only [List.cons.sizeOf_spec]
    omega
  · simp only [List.cons.sizeOf_spec]
    omega

/-- **The statements of a body are those that stand in it.** -/
theorem mem_statements_iff {body : List Stmt} {stmt : Stmt} :
    stmt ∈ statements body ↔ ∃ before inLoop, StandsIn body before inLoop stmt := by
  induction body using bodyInduction with
  | nil => simp [statements, not_standsIn_nil]
  | cons first rest blocks ih =>
    rw [statements_cons, List.cons_append, List.mem_cons, List.mem_append, List.mem_flatMap, ih]
    constructor
    · rintro (rfl | ⟨⟨block, isLoop⟩, mem, inner⟩ | ⟨before, inLoop, stands⟩)
      · exact ⟨_, _, standsIn_cons_iff.2 (.inl ⟨rfl, rfl, rfl⟩)⟩
      · obtain ⟨before, inLoop, stands⟩ := (blocks block isLoop mem).1 inner
        have inBody : StandsIn (first :: rest) before (isLoop || inLoop) stmt :=
          standsIn_cons_iff.2 (.inr (.inl ⟨block, isLoop, inLoop, mem, stands, rfl⟩))
        exact ⟨before, _, inBody⟩
      · exact ⟨_, _, stands.cons first⟩
    · rintro ⟨before, inLoop, stands⟩
      rcases standsIn_cons_iff.1 stands with
        ⟨-, -, rfl⟩ | ⟨block, isLoop, inner, mem, within, -⟩ | ⟨earlier, -, later⟩
      · exact .inl rfl
      · have inner : stmt ∈ statements block := (blocks block isLoop mem).2 ⟨_, _, within⟩
        exact .inr (.inl ⟨(block, isLoop), mem, inner⟩)
      · exact .inr (.inr ⟨_, _, later⟩)

end FrontEnd

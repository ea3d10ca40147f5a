import FrontEnd.Proofs.Grammar.Giving

/-!
# Names have a first segment

The type of names admits one without segments; the parser gives none. A name is begun with a segment
and only ever lengthened, in type position, as the name of a function and in expressions, and so are
the names among its arguments at every depth (`Name.Rooted`).

This module has the rooted names, and what the actions for names and for expressions give.

**The law** (`Parse.rooted_expr`): every name of a parsed expression is rooted.
-/

namespace FrontEnd

/-! ## Rooted names -/

/-- **A name is rooted** when it has a first segment and the names among its arguments are rooted,
at every depth. -/
inductive Name.Rooted : Name → Prop
  | mk {name : Name} : name.segments ≠ [] →
    (∀ segment ∈ name.segments, ∀ argument ∈ segment.arguments, Rooted argument) → Rooted name

/-- The arguments of a segment are rooted. -/
def Segment.Rooted (segment : Segment) : Prop :=
  ∀ argument ∈ segment.arguments, argument.Rooted

theorem Segment.rooted_plain (id : Nat) (text : String) (span : Span) :
    Segment.Rooted ⟨id, text, [], span⟩ :=
  nofun

theorem Name.rooted_cons {first : Segment} {rest : List Segment} {span : Span}
    (isFirst : first.Rooted) (areRest : ∀ segment ∈ rest, segment.Rooted) :
    Name.Rooted ⟨first :: rest, span⟩ :=
  .mk (List.cons_ne_nil _ _) (List.forall_mem_cons.2 ⟨isFirst, areRest⟩)

/-- A name that is lengthened stays rooted. -/
theorem Name.Rooted.append {name : Name} (rooted : name.Rooted) {next : Segment}
    (isNext : next.Rooted) (span : Span) : Name.Rooted ⟨name.segments ++ [next], span⟩ := by
  cases rooted with
  | mk some segments =>
    apply Name.Rooted.mk
    · simp
    · intro segment mem
      rcases List.mem_append.1 mem with old | new
      · exact segments segment old
      · rw [List.mem_singleton.1 new]
        exact isNext

/-- The bound of a type parameter is rooted, if there is one. -/
def TypeParameter.Rooted (p : TypeParameter) : Prop :=
  ∀ bound ∈ p.bound, bound.Rooted

/-- Every name of an expression is rooted. -/
def Expr.Rooted (value : Expr) : Prop :=
  ∀ name ∈ value.names, name.Rooted

namespace Expr

variable {value : Expr}

theorem rooted_name {name : Name} (rooted : name.Rooted) : (Expr.name name).Rooted := by
  intro other mem
  rwa [List.mem_singleton.1 mem]

theorem rooted_binary {operator : Operator} {left right : Expr} {span : Span}
    (isLeft : left.Rooted) (isRight : right.Rooted) :
    (Expr.binary operator left right span).Rooted :=
  List.forall_mem_append.2 ⟨isLeft, isRight⟩

theorem rooted_call {callee : Expr} {arguments : List Expr} {span : Span} (isCallee : callee.Rooted)
    (areArguments : ∀ argument ∈ arguments, argument.Rooted) :
    (Expr.call callee arguments span).Rooted := by
  intro name mem
  simp only [names, namesOfList_eq, List.mem_append, List.mem_flatMap] at mem
  rcases mem with ofCallee | ⟨argument, isArgument, mem⟩
  · exact isCallee name ofCallee
  · exact areArguments argument isArgument name mem

theorem rooted_index {base position : Expr} {span : Span} (isBase : base.Rooted)
    (isPosition : position.Rooted) : (Expr.index base position span).Rooted :=
  List.forall_mem_append.2 ⟨isBase, isPosition⟩

theorem rooted_structLiteral {isMutable : Bool} {fields : List (String × Expr)} {span : Span}
    (areFields : ∀ field ∈ fields, field.2.Rooted) :
    (Expr.structLiteral isMutable fields span).Rooted := by
  intro name mem
  simp only [names, namesOfFields_eq, List.mem_flatMap] at mem
  obtain ⟨field, isField, mem⟩ := mem
  exact areFields field isField name mem

theorem rooted_arrayLiteral {values : List Expr} {span : Span}
    (areValues : ∀ value ∈ values, value.Rooted) : (Expr.arrayLiteral values span).Rooted := by
  intro name mem
  simp only [names, namesOfList_eq, List.mem_flatMap] at mem
  obtain ⟨value, isValue, mem⟩ := mem
  exact areValues value isValue name mem

end Expr

namespace Parse

open Token

/-! ## Parsing names -/

/-- The elements of a list with commas between them are what the action gives. -/
theorem gives_separated {α : Type} {item : Parse α} {good : α → Prop} (each : Gives item good)
    (closing : Kind) : Gives (separated closing item) fun values => ∀ value ∈ values, good value :=
  gives_repeatWhile (.bind each fun _ isGood => .skip fun _ => .pure isGood) _

/-- The arguments of an identifier are rooted. -/
def RootedIdentifier : Identifier → Prop
  | .plain _ _ => True
  | .applied segment => segment.Rooted

section Names

variable {name : Parse Name} (each : Gives name Name.Rooted)

include each

theorem rooted_typeArguments : Gives (typeArguments name) fun names => ∀ n ∈ names, n.Rooted :=
  .skip fun _ => .bind (gives_separated each _) fun _ areRooted => .skip fun _ => .pure areRooted

theorem rooted_identifierOf : Gives (identifierOf name) RootedIdentifier := by
  refine .skip fun token => .skip fun c => ?_
  split
  · exact .skip fun id => .bind (rooted_typeArguments each) fun _ areRooted => .skip fun _ =>
      .pure areRooted
  · exact .pure trivial

theorem rooted_segmentOf : Gives (segmentOf name) Segment.Rooted := by
  refine .bind (rooted_identifierOf each) fun identifier isRooted => ?_
  cases identifier with
  | plain text span => exact .skip fun id => .pure (Segment.rooted_plain id text span)
  | applied segment => exact .pure isRooted

end Names

theorem rooted_nameUpTo (n : Nat) : Gives (nameUpTo n) Name.Rooted := by
  induction n with
  | zero => exact .halt
  | succ n ih =>
    have segment := rooted_segmentOf ih
    refine .skip fun _ => .bind segment fun first isFirst => ?_
    refine .bind (gives_repeatWhile (.skip fun _ => segment) _) fun rest areRest => ?_
    exact .skip fun _ => .pure (Name.rooted_cons isFirst areRest)

/-- **A name is rooted**, and so are the names among its arguments. -/
theorem rooted_name : Gives name Name.Rooted :=
  .skip fun _ => rooted_nameUpTo _

theorem rooted_segment : Gives segment Segment.Rooted :=
  rooted_segmentOf rooted_name

theorem rooted_typeParameter : Gives typeParameter TypeParameter.Rooted := by
  refine .skip fun token => .skip fun bounded => ?_
  have whole (bound : Option Name) (isBound : ∀ b ∈ bound, b.Rooted) :
      Gives (do
        separator .greater
        return (⟨token.text, bound, token.span⟩ : TypeParameter)) TypeParameter.Rooted :=
    .skip fun _ => .pure isBound
  dsimp only
  split
  · have bound : Gives (some <$> Parse.name) fun bound => ∀ b ∈ bound, b.Rooted :=
      .map rooted_name fun _ rooted => by simpa using rooted
    exact .bind bound whole
  · rw [pure_bind]
    exact whole none nofun

theorem rooted_typeParameters : Gives typeParameters fun ps => ∀ p ∈ ps, p.Rooted := by
  refine .skip fun opens => ?_
  split
  · exact .bind (gives_repeatWhile rooted_typeParameter _) fun _ areRooted => .skip fun _ =>
      .pure areRooted
  · exact .pure nofun

/-! ## Parsing expressions -/

section Inner

variable {expr : Precedence → Parse Expr} (each : ∀ p, Gives (expr p) Expr.Rooted)

theorem rooted_literal {α : Type} {read : String → Option α} {build : α → Span → Expr}
    (plain : ∀ value span, (build value span).Rooted) : Gives (literal read build) Expr.Rooted := by
  refine .skip fun token => ?_
  split
  · exact .pure (plain _ _)
  · exact .halt

theorem rooted_textLiteral {build : String → Span → Expr}
    (plain : ∀ text span, (build text span).Rooted) : Gives (textLiteral build) Expr.Rooted :=
  .skip fun _ => .pure (plain _ _)

theorem rooted_primary : Gives primary Expr.Rooted := by
  refine .skip fun kind => ?_
  split
  · exact rooted_literal fun _ _ => nofun
  · exact rooted_literal fun _ _ => nofun
  · exact .skip fun _ => .pure nofun
  · exact .skip fun _ => .pure nofun
  · exact rooted_textLiteral fun _ _ => nofun
  · exact rooted_textLiteral fun _ _ => nofun
  · refine .bind (rooted_identifierOf rooted_name) fun identifier isRooted => ?_
    cases identifier with
    | plain text span => exact .pure nofun
    | applied segment => exact .pure (Expr.rooted_name (Name.rooted_cons isRooted nofun))
  · exact .skip fun _ => .halt

include each

theorem rooted_sign : Gives (sign expr) Expr.Rooted := by
  refine .skip fun token => .bind (each _) fun operand isRooted => ?_
  have one (value : Int) : (Expr.int value token.span).Rooted := nofun
  split
  · exact .pure isRooted
  · exact .pure (Expr.rooted_binary isRooted (one _))
  · exact .pure (Expr.rooted_binary isRooted (one _))
  · exact .pure (Expr.rooted_binary isRooted (one _))
  · exact .halt

theorem rooted_group : Gives (group expr) Expr.Rooted :=
  .skip fun _ => .bind (each _) fun _ isRooted => .skip fun _ => .pure isRooted

theorem rooted_fieldValue : Gives (fieldValue expr) fun field => field.2.Rooted := by
  refine .skip fun _ => .skip fun token => .skip fun kind => ?_
  split
  · exact .pure nofun
  · exact .pure nofun
  · exact .skip fun _ => .bind (each _) fun _ isRooted => .pure isRooted

theorem rooted_structLiteral : Gives (structLiteral expr) Expr.Rooted :=
  .skip fun _ => .skip fun _ => .skip fun _ =>
    .bind (gives_separated (rooted_fieldValue each) _) fun _ areRooted =>
      .skip fun _ => .skip fun _ => .pure (Expr.rooted_structLiteral areRooted)

theorem rooted_arrayLiteral : Gives (arrayLiteral expr) Expr.Rooted :=
  .skip fun _ => .skip fun _ => .bind (gives_separated (each _) _) fun _ areRooted =>
    .skip fun _ => .skip fun _ => .pure (Expr.rooted_arrayLiteral areRooted)

theorem rooted_lead (form : Lead) : Gives (lead expr form) Expr.Rooted := by
  cases form with
  | primary => exact rooted_primary
  | sign => exact rooted_sign each
  | group => exact rooted_group each
  | structLiteral => exact rooted_structLiteral each
  | arrayLiteral => exact rooted_arrayLiteral each

theorem rooted_opening {g : Grammar} : Gives (opening g expr) Expr.Rooted := by
  refine .skip fun c => ?_
  split
  · exact rooted_lead each _
  · exact .halt

variable {left : Expr} (isLeft : left.Rooted)

include isLeft

theorem rooted_binary (precedence : Precedence) :
    Gives (binary expr left precedence) Expr.Rooted := by
  refine .skip fun token => ?_
  split
  · exact .halt
  · exact .bind (each _) fun _ isRight => .pure (Expr.rooted_binary isLeft isRight)

theorem rooted_call : Gives (call expr left) Expr.Rooted :=
  .skip fun _ => .bind (gives_separated (each _) _) fun _ areRooted => .skip fun _ =>
    .skip fun _ => .pure (Expr.rooted_call isLeft areRooted)

theorem rooted_index : Gives (index expr left) Expr.Rooted :=
  .skip fun _ => .bind (each _) fun _ isPosition => .skip fun _ => .skip fun _ =>
    .pure (Expr.rooted_index isLeft isPosition)

omit each in
/-- A point behind a name lengthens it, and behind a symbol it makes a name of two segments. -/
theorem rooted_member : Gives (member left) Expr.Rooted := by
  refine .skip fun _ => ?_
  split
  next text span =>
    refine .skip fun id => .bind rooted_segment fun second isSecond => .skip fun _ => .pure ?_
    apply Expr.rooted_name
    apply Name.rooted_cons (Segment.rooted_plain id text span)
    simpa using isSecond
  next name =>
    have rooted : name.Rooted := isLeft name (List.mem_singleton_self _)
    exact .bind rooted_segment fun next isNext => .skip fun span =>
      .pure (Expr.rooted_name (rooted.append isNext span))
  next => exact .skip fun _ => .skip fun _ => .pure isLeft

theorem rooted_follow (form : Follow) (precedence : Precedence) :
    Gives (follow expr form left precedence) Expr.Rooted := by
  cases form with
  | binary => exact rooted_binary each isLeft precedence
  | call => exact rooted_call each isLeft
  | index => exact rooted_index each isLeft
  | member => exact rooted_member isLeft

theorem rooted_extend {g : Grammar} : Gives (extend g expr left) Expr.Rooted := by
  refine .skip fun kind => ?_
  split
  · exact rooted_follow each isLeft _ _
  · exact .pure isLeft

end Inner

variable {g : Grammar}

theorem rooted_exprUpTo (n : Nat) (precedence : Precedence) :
    Gives (exprUpTo g n precedence) Expr.Rooted := by
  induction n generalizing precedence with
  | zero => exact .halt
  | succ n ih =>
    exact .bind (rooted_opening ih) fun _ isFirst =>
      gives_growWhile (fun _ isRooted => rooted_extend ih isRooted) _ isFirst

/-- **Every name of an expression is rooted.** -/
theorem rooted_expr (precedence : Precedence) : Gives (expr g precedence) Expr.Rooted :=
  .skip fun _ => rooted_exprUpTo _ precedence

end Parse

end FrontEnd

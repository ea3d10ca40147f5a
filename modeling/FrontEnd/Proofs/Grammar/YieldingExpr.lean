import FrontEnd.Grammar.Expr
import FrontEnd.Proofs.Grammar.YieldingName
import FrontEnd.Proofs.Token.Scanned

/-!
# What parsing yields from the lexemes of expressions

Every written expression stands in parentheses. So what begins it is a group, and the group is ended
before any token could be taken for a further operand: an operator, an index or a point behind it
belongs to the expression around it. Inside the parentheses stands either what one lead begins, or a
group with one follow behind it, or a name with its segments behind points.

**The law** (`Parse.yields_expr`): from the lexemes of an expression that can be written the
expression is yielded, up to numbers and positions, wherever nothing behind it continues it.
-/

namespace FrontEnd

open Token Lexeme

/-- Two expressions are alike when they are equal up to numbers and positions. -/
def Expr.Alike (e found : Expr) : Prop :=
  found.relabel .erase = e.relabel .erase

/-- **Nothing in front of a cursor continues an expression**, at any precedence. -/
def Stops (rest : List Lexeme) : Prop :=
  ∀ (precedence : Precedence) (c : Cursor), c.left.map Token.lexeme = rest →
    Parse.continues .standard precedence c = false

theorem stops_of_follow {rest : List Lexeme} {k : Kind} (here : first rest = some k)
    (none : Grammar.standard.follow k = none) : Stops rest := by
  intro precedence c lexemes
  rw [Parse.continues, Cursor.kind_of_lexemes lexemes here, none]
  simp

/-- The mark of an array type does not continue an expression. -/
theorem stops_arraySuffix (rest : List Lexeme) :
    Stops (Kind.openBracket.lexeme :: Kind.closeBracket.lexeme :: rest) := by
  intro precedence c lexemes
  have isOpen : c.kind = .openBracket := Cursor.kind_of_lexemes lexemes rfl
  have isClosed : c.peek 1 = .closeBracket := Cursor.peek_of_lexemes lexemes 1
  rw [Parse.continues, isOpen, isClosed]
  rfl

namespace Parse

variable {word rest : List Lexeme} {k : Kind}

/-! ## Leads and follows -/

section Inner

variable {inner : Precedence → Parse Expr} {good : Expr → Prop} {n : Nat}

/-- What a lead begins is yielded where the lead stands. -/
theorem yields_opening {form : Lead} (here : first (word ++ rest) = some k)
    (found : Grammar.standard.lead k = some form) (h : Yields (lead inner form) word rest good) :
    Yields (opening .standard inner) word rest good := by
  refine .look fun c lexemes => ?_
  rw [Cursor.kind_of_lexemes lexemes here, found]
  exact h

/-- What a follow makes is yielded where the follow stands. -/
theorem yields_extend {form : Follow} {left : Expr} (here : first (word ++ rest) = some k)
    (found : Grammar.standard.follow k = some form)
    (h : Yields (follow inner form left (Grammar.standard.binding k)) word rest good) :
    Yields (extend .standard inner left) word rest good := by
  refine .onKind here ?_
  rw [found]
  exact h

/-- What is begun, where nothing continues it. -/
theorem yields_exprUpTo_lead {precedence : Precedence}
    (here : Yields (opening .standard (exprUpTo .standard n)) word rest good) (stops : Stops rest) :
    Yields (exprUpTo .standard (n + 1) precedence) word rest good :=
  .whole here fun _ isGood => yields_growWhile_nil isGood (stops precedence)

/-- What is begun, and one token that continues it. -/
theorem yields_exprUpTo_follow {u v : List Lexeme} {mid : Expr → Prop}
    (here : Yields (opening .standard (exprUpTo .standard n)) u (v ++ rest) mid)
    (goesOn : ∀ c : Cursor, c.left.map Token.lexeme = v ++ rest →
      continues .standard .loosest c = true)
    (behind : ∀ left, mid left →
      Yields (extend .standard (exprUpTo .standard n) left) v rest good)
    (stops : Stops rest) :
    Yields (exprUpTo .standard (n + 1) .loosest) (u ++ v) rest good :=
  .bind here fun left isMid => yields_growWhile_once (behind left isMid) goesOn (stops _)

/-- A kind with a follow continues an expression, unless it could be the mark of an array type. -/
theorem continues_of_follow {c : Cursor} (here : c.kind = k)
    (notBracket : k ≠ .openBracket) (binds : 0 < (Grammar.standard.binding k).rank)
    (known : (Grammar.standard.follow k).isSome = true) :
    continues .standard .loosest c = true := by
  have notMark : (c.kind == .openBracket && c.peek 1 == .closeBracket) = false := by
    simp [here, notBracket]
  have loosest : Precedence.loosest.rank = 0 := rfl
  rw [continues, notMark, here, known, loosest]
  simpa using binds

end Inner

/-! ## Groups -/

theorem stops_closeParen : Stops (Kind.closeParen.lexeme :: rest) :=
  stops_of_follow rfl rfl

/-- **An expression is readable** when its lexemes without the parentheses around it yield it in front
of a closing parenthesis, at every depth that is at least their number. -/
structure Readable (e : Expr) : Prop where
  nonempty : e.core ≠ []
  yields : ∀ n rest, e.core.length ≤ n + 1 →
    Yields (exprUpTo .standard (n + 1) .loosest) e.core (Kind.closeParen.lexeme :: rest) e.Alike

section Groups

variable {e : Expr} {n : Nat}

theorem length_lexemes (e : Expr) : e.lexemes.length = e.core.length + 2 := by
  rw [Expr.lexemes, grouped, between, List.length_cons, List.length_append]
  rfl

/-- A readable expression in parentheses is yielded by what begins an expression. -/
theorem Readable.opening (h : Readable e) (enough : e.core.length ≤ n) :
    Yields (Parse.opening .standard (exprUpTo .standard n)) e.lexemes rest e.Alike := by
  obtain ⟨n, rfl⟩ : ∃ m, n = m + 1 := by
    have one := List.length_pos_iff.2 h.nonempty
    exact Nat.exists_eq_succ_of_ne_zero (by omega)
  refine yields_opening rfl rfl (.token yields_advance fun _ _ => ?_)
  refine .bind (h.yields n rest enough) fun found alike => ?_
  exact .token yields_mark fun _ _ => .pure alike

/-- **A readable expression in parentheses is yielded** wherever nothing behind it continues it. -/
theorem Readable.exprUpTo (h : Readable e) (enough : e.lexemes.length ≤ n) (stops : Stops rest)
    (precedence : Precedence) :
    Yields (Parse.exprUpTo .standard n precedence) e.lexemes rest e.Alike := by
  rw [length_lexemes] at enough
  cases n with
  | zero => omega
  | succ n => exact yields_exprUpTo_lead (h.opening (by omega)) stops

/-- What one lead begins is readable. -/
theorem readable_of_opening (nonempty : e.core ≠ [])
    (h : ∀ n rest, e.core.length ≤ n + 1 → Yields (Parse.opening .standard (Parse.exprUpTo .standard n))
      e.core (Kind.closeParen.lexeme :: rest) e.Alike) : Readable e :=
  ⟨nonempty, fun n rest enough => yields_exprUpTo_lead (h n rest enough) stops_closeParen⟩

/-- A group and one follow behind it are readable. -/
theorem readable_of_follow {base : Expr} {v : List Lexeme}
    (baseReadable : Readable base) (split : e.core = base.lexemes ++ v)
    (goesOn : ∀ (rest : List Lexeme) (c : Cursor), c.left.map Token.lexeme = v ++ rest →
      continues .standard .loosest c = true)
    (h : ∀ n rest left, e.core.length ≤ n + 1 → base.Alike left →
      Yields (extend .standard (Parse.exprUpTo .standard n) left) v
        (Kind.closeParen.lexeme :: rest) e.Alike) : Readable e := by
  refine ⟨?_, fun n rest enough => ?_⟩
  · rw [split]
    nofun
  · have counted : e.core.length = base.core.length + 2 + v.length := by
      rw [split, List.length_append, length_lexemes]
    rw [split]
    refine yields_exprUpTo_follow (baseReadable.opening (by omega)) (goesOn _) (fun left alike => ?_)
      stops_closeParen
    exact h n rest left enough alike

/-- Elements in parentheses of their own are yielded up to the closing mark. -/
theorem yields_elements {closing : Kind} {values : List Expr} (notComma : closing ≠ .comma)
    (notOpen : closing ≠ .openParen) (none : Grammar.standard.follow closing = none)
    (each : ∀ value ∈ values, Readable value)
    (enough : (joined .comma (values.map Expr.lexemes)).length ≤ n)
    (closes : first rest = some closing) :
    Yields (separated closing (Parse.exprUpTo .standard n .loosest))
      (joined .comma (values.map Expr.lexemes)) rest fun found =>
        found.map (Expr.relabel .erase) = values.map (Expr.relabel .erase) := by
  refine yields_separated notComma (fun value mem behind follows => ?_)
    (fun value mem => ⟨.openParen, rfl, notOpen.symm⟩) closes
  have short : value.lexemes.length ≤ (joined .comma (values.map Expr.lexemes)).length :=
    length_le_joined (List.mem_map_of_mem mem)
  refine (each value mem).exprUpTo (by omega) ?_ _
  rcases follows with follows | follows
  · exact stops_of_follow follows rfl
  · exact stops_of_follow follows none

end Groups

/-! ## Names -/

/-- **An expression stands for segments**: it is the symbol of a single plain segment, or a name of
the segments, up to numbers and positions. -/
inductive StandsFor (segments : List Segment) : Expr → Prop
  | symbol {segment : Segment} {span : Span} : segments = [segment] → segment.arguments = [] →
    StandsFor segments (.symbol segment.text span)
  | name {name : Name} :
    name.segments.map (Segment.relabel .erase) = segments.map (Segment.relabel .erase) →
    StandsFor segments (.name name)

/-- The first segment of a name begins an expression. -/
theorem yields_opening_segment {inner : Precedence → Parse Expr} {segment : Segment}
    (written : segment.Printable) (noList : first rest ≠ some .less) :
    Yields (opening .standard inner) segment.lexemes rest (StandsFor [segment]) := by
  have here : first (segment.lexemes ++ rest) = some .identifier :=
    first_append segment.first_lexemes
  refine yields_opening here rfl (.onKind here ?_)
  by_cases plain : segment.arguments = []
  · rw [segment.lexemes_of_nil plain]
    refine .whole (yields_identifierOf_plain (afterList?_eq_none noList)) fun found isPlain => ?_
    obtain ⟨span, rfl⟩ := isPlain
    exact .pure (.symbol rfl plain)
  · rw [segment.lexemes_of_ne_nil plain]
    have arguments : Yields (typeArguments Parse.name) _ rest _ :=
      yields_typeArguments (fun a mem => (written a mem).printable) (yields_argument written)
    refine .whole (yields_identifierOf_applied (written.word plain) arguments)
      fun found isApplied => ?_
    obtain ⟨applied, rfl, text, names⟩ := isApplied
    refine .pure (.name ?_)
    rw [List.map_singleton, List.map_singleton, Segment.erase_eq_iff.2 ⟨text, names⟩]

/-- A point and a segment lengthen a name. -/
theorem yields_member_segment {segments : List Segment} {segment : Segment} {left : Expr}
    (stands : StandsFor segments left) (written : segment.Printable)
    (noList : first rest ≠ some .less) :
    Yields (member left) (Kind.dot.lexeme :: segment.lexemes) rest
      (StandsFor (segments ++ [segment])) := by
  refine .token yields_advance fun _ _ => ?_
  cases stands with
  | @symbol only span same plain =>
    subst same
    refine .still yields_freshId fun id _ => .whole (yields_segment written noList)
      fun found alike => .still (yields_spanFrom _) fun _ _ => .pure (.name ?_)
    have onlyAlike : Segment.relabel .erase ⟨id, only.text, [], span⟩ = only.relabel .erase :=
      Segment.erase_eq_iff.2 ⟨rfl, by rw [plain]⟩
    simp only [List.map_cons, List.map_nil, List.cons_append, List.nil_append, onlyAlike, alike]
  | @name name same =>
    refine .whole (yields_segment written noList) fun found alike => ?_
    refine .still (yields_spanFrom _) fun _ _ => .pure (.name ?_)
    rw [List.map_append, List.map_append, same, List.map_singleton, List.map_singleton, alike]

/-- **The lexemes of a name yield an expression that stands for its segments**, where neither a list
nor a point follows and nothing else continues it. -/
theorem yields_exprUpTo_name {n : Nat} {name : Name} (written : name.Printable)
    (noList : first rest ≠ some .less) (stops : Stops rest) :
    Yields (exprUpTo .standard (n + 1) .loosest) name.lexemes rest (StandsFor name.segments) := by
  obtain ⟨segments, span⟩ := name
  cases segments with
  | nil => exact absurd rfl written.nonempty
  | cons segment later =>
    have known := List.forall_mem_cons.1 written.segment
    rw [Name.lexemes_cons]
    refine .bind (yields_opening_segment known.1 (first_further_ne_less noList))
      fun left stands => ?_
    have grown : Yields
        (growWhile (continues .standard .loosest) (extend .standard (exprUpTo .standard n)) left)
        (later.flatMap furtherLexemes) rest (StandsFor ([segment] ++ later)) := by
      refine yields_growWhile (P := fun done => StandsFor ([segment] ++ done)) stands
        (fun done t later value behind split stands follows => ?_)
        (fun t mem c behind lexemes => ?_) (fun t _ => List.cons_ne_nil _ _) (stops _)
      · have isWritten : t.Printable := known.2 t (by simp [split])
        rw [← List.append_assoc]
        exact yields_extend rfl rfl
          (yields_member_segment stands isWritten (ne_less_of_follows noList follows))
      · have isPoint : c.kind = .dot := Cursor.kind_of_lexemes lexemes rfl
        exact continues_of_follow isPoint (by decide) (by decide) rfl
    exact grown

/-! ## The forms of expressions -/

theorem readable_bool (value : Bool) (span : Span) : Readable (.bool value span) := by
  refine readable_of_opening (List.cons_ne_nil _ _) fun n rest _ => ?_
  cases value with
  | true =>
    exact yields_opening rfl rfl (.onKind rfl (.token yields_advance fun _ _ => .pure rfl))
  | false =>
    exact yields_opening rfl rfl (.onKind rfl (.token yields_advance fun _ _ => .pure rfl))

theorem readable_int {value : Nat} (small : value < 0x8000000000000000) (span : Span) :
    Readable (.int value span) := by
  refine readable_of_opening (List.cons_ne_nil _ _) fun n rest _ => ?_
  refine yields_opening rfl rfl (.onKind rfl (.token yields_advance fun token same => ?_))
  have text : token.text = toString (value : Int) := congrArg Prod.snd same
  rw [text, integer?_toString small]
  exact .pure rfl

theorem readable_string (value : String) (span : Span) : Readable (.string value span) := by
  refine readable_of_opening (List.cons_ne_nil _ _) fun n rest _ => ?_
  refine yields_opening rfl rfl (.onKind rfl (.token yields_advance fun token same => ?_))
  have text : token.text = value := congrArg Prod.snd same
  rw [text]
  exact .pure rfl

theorem readable_char (value : String) (span : Span) : Readable (.char value span) := by
  refine readable_of_opening (List.cons_ne_nil _ _) fun n rest _ => ?_
  refine yields_opening rfl rfl (.onKind rfl (.token yields_advance fun token same => ?_))
  have text : token.text = value := congrArg Prod.snd same
  rw [text]
  exact .pure rfl

theorem readable_symbol (text : String) (span : Span) : Readable (.symbol text span) := by
  refine readable_of_opening (List.cons_ne_nil _ _) fun n rest _ => ?_
  have noList : first (Kind.closeParen.lexeme :: rest) ≠ some .less := nofun
  refine yields_opening rfl rfl (.onKind rfl ?_)
  refine .whole (yields_identifierOf_plain (afterList?_eq_none noList)) ?_
  rintro _ ⟨span, rfl⟩
  exact .pure rfl

theorem readable_name {name : Name} (written : name.Printable)
    (notSymbol : ∀ segment, name.segments = [segment] → segment.arguments ≠ []) :
    Readable (.name name) := by
  refine ⟨ne_nil_of_first written.first_lexemes, fun n rest _ => ?_⟩
  have noList : first (Kind.closeParen.lexeme :: rest) ≠ some .less := nofun
  refine (yields_exprUpTo_name written noList stops_closeParen).weaken fun found stands => ?_
  cases stands with
  | symbol single plain => exact absurd plain (notSymbol _ single)
  | name same => exact congrArg Expr.name (Name.erase_eq_iff.2 same)

section Compound

variable {e left right : Expr} {values : List Expr}

theorem readable_negate (h : Readable e) (span : Span) : Readable (.negate e span) := by
  refine readable_of_opening (List.cons_ne_nil _ _) fun n rest enough => ?_
  have short : e.lexemes.length ≤ n := Nat.le_of_succ_le_succ enough
  refine yields_opening rfl rfl (.token yields_advance fun token same => ?_)
  have isNot : token.kind = .not := congrArg Prod.fst same
  refine .whole (h.exprUpTo short stops_closeParen _) fun operand alike => ?_
  rw [isNot]
  refine .pure ?_
  unfold Expr.Alike at alike ⊢
  simp only [Expr.relabel, alike, Relabel.span_erase]

/-- The sign that a product with minus one comes from. -/
theorem readable_minus (h : Readable e) (sign span : Span) :
    Readable (.binary .multiply e (.int (-1) sign) span) := by
  have core : (Expr.binary .multiply e (.int (-1) sign) span).core =
      Kind.dash.lexeme :: e.lexemes := by
    rw [Expr.core, if_pos ⟨rfl, rfl⟩, Expr.lexemes]
  refine readable_of_opening (by rw [core]; exact List.cons_ne_nil _ _) fun n rest enough => ?_
  rw [core] at enough ⊢
  have short : e.lexemes.length ≤ n := Nat.le_of_succ_le_succ enough
  refine yields_opening rfl rfl (.token yields_advance fun token same => ?_)
  have isDash : token.kind = .dash := congrArg Prod.fst same
  refine .whole (h.exprUpTo short stops_closeParen _) fun operand alike => ?_
  rw [isDash]
  refine .pure ?_
  unfold Expr.Alike at alike ⊢
  simp only [Expr.operation, Expr.relabel, alike, Relabel.span_erase]

/-- Every operator is read back from its token, which binds tighter than nothing. -/
theorem Operator.standard (operator : Operator) :
    Operator.ofKind? operator.kind = some operator ∧ operator.kind ≠ .openBracket ∧
      Grammar.standard.follow operator.kind = some .binary ∧
        0 < (Grammar.standard.binding operator.kind).rank := by
  cases operator <;> decide

theorem readable_binary (leftReadable : Readable left) (rightReadable : Readable right)
    (operator : Operator) (span : Span) (notMinusOne : right.isMinusOne = false) :
    Readable (.binary operator left right span) := by
  have core : (Expr.binary operator left right span).core =
      left.lexemes ++ operator.kind.lexeme :: right.lexemes := by
    rw [Expr.core, if_neg (by simp [notMinusOne]), Expr.lexemes, Expr.lexemes]
  obtain ⟨readBack, notBracket, follows, binds⟩ := Operator.standard operator
  refine readable_of_follow leftReadable core (fun rest c lexemes => ?_)
    fun n rest found enough leftAlike => ?_
  · have here : c.kind = operator.kind := Cursor.kind_of_lexemes lexemes rfl
    exact continues_of_follow here notBracket binds (by rw [follows]; rfl)
  · have short : right.lexemes.length ≤ n := by
      rw [core, List.length_append, List.length_cons] at enough
      omega
    refine yields_extend rfl follows (.token yields_advance fun token same => ?_)
    have here : token.kind = operator.kind := congrArg Prod.fst same
    rw [here, readBack]
    refine .whole (rightReadable.exprUpTo short stops_closeParen _) fun found rightAlike => .pure ?_
    unfold Expr.Alike at leftAlike rightAlike ⊢
    simp only [Expr.operation, Expr.relabel, leftAlike, rightAlike, Relabel.span_erase]

theorem readable_call (calleeReadable : Readable e) (each : ∀ value ∈ values, Readable value)
    (span : Span) : Readable (.call e values span) := by
  have core : (Expr.call e values span).core =
      e.lexemes ++ list .openParen .closeParen (values.map Expr.lexemes) := by
    rw [Expr.core, exprLexemes_eq, Expr.lexemes]
  refine readable_of_follow calleeReadable core (fun rest c lexemes => ?_)
    fun n rest found enough calleeAlike => ?_
  · have here : c.kind = .openParen := Cursor.kind_of_lexemes lexemes rfl
    exact continues_of_follow here (by decide) (by decide) rfl
  · have short : (joined .comma (values.map Expr.lexemes)).length ≤ n := by
      rw [core, List.length_append, list, between, List.length_cons, List.length_append] at enough
      omega
    refine yields_extend rfl rfl (.token yields_advance fun _ _ => ?_)
    refine .bind (yields_elements (by decide) (by decide) rfl each short rfl) fun found same => ?_
    refine .token yields_mark fun _ _ => .still (yields_spanFrom _) fun _ _ => .pure ?_
    unfold Expr.Alike at calleeAlike ⊢
    simp only [Expr.relabel, relabelExprs_eq, calleeAlike, same, Relabel.span_erase]

theorem readable_index (baseReadable : Readable left) (positionReadable : Readable right)
    (span : Span) : Readable (.index left right span) := by
  have core : (Expr.index left right span).core =
      left.lexemes ++ between .openBracket .closeBracket right.lexemes := by
    rw [Expr.core, Expr.lexemes, Expr.lexemes]
  refine readable_of_follow baseReadable core (fun rest c lexemes => ?_)
    fun n rest found enough baseAlike => ?_
  · have here : c.kind = .openBracket := Cursor.kind_of_lexemes lexemes rfl
    have next : c.peek 1 = .openParen := Cursor.peek_of_lexemes lexemes 1
    rw [continues, here, next]
    rfl
  · have short : right.lexemes.length ≤ n := by
      rw [core, List.length_append, between, List.length_cons, List.length_append] at enough
      omega
    refine yields_extend rfl rfl (.token yields_advance fun _ _ => ?_)
    refine .bind (positionReadable.exprUpTo short (stops_of_follow rfl rfl) _) fun found same => ?_
    refine .token yields_mark fun _ _ => .still (yields_spanFrom _) fun _ _ => .pure ?_
    unfold Expr.Alike at baseAlike same ⊢
    simp only [Expr.relabel, baseAlike, same, Relabel.span_erase]

@[simp] theorem isName_relabel (m : Relabel) (e : Expr) : (e.relabel m).isName = e.isName := by
  cases e <;> rfl

/-- A point behind an expression that is no name selects a member. -/
theorem member_eq {base : Expr} (noName : base.isName = false) :
    member base = (do
      let _ ← advance
      let token ← expect .identifier
      return Expr.member base token.text (← spanFrom base.span.start)) := by
  cases base with
  | symbol => cases noName
  | name => cases noName
  | _ => rfl

theorem readable_member (baseReadable : Readable e) (noName : e.isName = false) (field : String)
    (span : Span) : Readable (.member e field span) := by
  have core : (Expr.member e field span).core = e.lexemes ++ [Kind.dot.lexeme, named field] := by
    rw [Expr.core, Expr.lexemes]
  refine readable_of_follow baseReadable core (fun rest c lexemes => ?_)
    fun n rest found enough baseAlike => ?_
  · have here : c.kind = .dot := Cursor.kind_of_lexemes lexemes rfl
    exact continues_of_follow here (by decide) (by decide) rfl
  · have noNameToo : found.isName = false := by
      rw [← isName_relabel .erase, baseAlike, isName_relabel]
      exact noName
    refine yields_extend rfl rfl ?_
    change Yields (member found) _ _ _
    rw [member_eq noNameToo]
    refine .token yields_advance fun _ _ => .token yields_expect fun token text => ?_
    refine .still (yields_spanFrom _) fun _ _ => .pure ?_
    unfold Expr.Alike at baseAlike ⊢
    simp only [Expr.relabel, baseAlike, text, Relabel.span_erase]

/-- A field of a structure literal is yielded with its value. -/
theorem yields_fieldValue {n : Nat} {field : String × Expr} (h : Readable field.2)
    (enough : field.2.lexemes.length ≤ n) (stops : Stops rest) :
    Yields (fieldValue (Parse.exprUpTo .standard n)) (literalFieldLexemes field) rest fun found =>
      Prod.map id (Expr.relabel .erase) found = Prod.map id (Expr.relabel .erase) field := by
  refine .token yields_mark fun _ _ => .token yields_expect fun token text => .onKind rfl ?_
  refine .token yields_mark fun _ _ => .whole (h.exprUpTo enough stops _) fun value alike => .pure ?_
  exact Prod.ext text alike

theorem readable_structLiteral {fields : List (String × Expr)}
    (each : ∀ field ∈ fields, Readable field.2) (isMutable : Bool) (span : Span) :
    Readable (.structLiteral isMutable fields span) := by
  have core : (Expr.structLiteral isMutable fields span).core = optional .mutWord isMutable ++
      list .openCurly .closeCurly (fields.map literalFieldLexemes) := by
    rw [Expr.core, fieldLexemes_eq]
  refine readable_of_opening (by rw [core]; simp [list, between]) fun n rest enough => ?_
  have short : ∀ field ∈ fields, field.2.lexemes.length ≤ n := by
    intro field mem
    have within : (literalFieldLexemes field).length ≤
        (joined .comma (fields.map literalFieldLexemes)).length :=
      length_le_joined (List.mem_map_of_mem mem)
    rw [core, List.length_append, list, between, List.length_cons, List.length_append] at enough
    rw [literalFieldLexemes, List.length_cons, List.length_cons, List.length_cons] at within
    omega
  have separate : Yields (separated .closeCurly (fieldValue (Parse.exprUpTo .standard n)))
      (joined .comma (fields.map literalFieldLexemes))
      ([Kind.closeCurly.lexeme] ++ Kind.closeParen.lexeme :: rest) fun found =>
        found.map (Prod.map id (Expr.relabel .erase)) =
          fields.map (Prod.map id (Expr.relabel .erase)) := by
    refine yields_separated (by decide) (fun field mem behind follows => ?_)
      (fun field _ => ⟨.dot, rfl, by decide⟩) rfl
    refine yields_fieldValue (each field mem) (short field mem) ?_
    rcases follows with follows | follows
    · exact stops_of_follow follows rfl
    · exact stops_of_follow follows rfl
  have literal : Yields (structLiteral (Parse.exprUpTo .standard n))
      (optional .mutWord isMutable ++ list .openCurly .closeCurly (fields.map literalFieldLexemes))
      (Kind.closeParen.lexeme :: rest) (Expr.structLiteral isMutable fields span).Alike := by
    refine .still yields_here fun _ _ => ?_
    refine .bind (yields_optional isMutable (ne_of_first rfl (by decide))) fun _ marked => ?_
    refine .token yields_mark fun _ _ => ?_
    refine .bind separate fun found same => .token yields_mark fun _ _ => ?_
    refine .still (yields_spanFrom _) fun _ _ => .pure ?_
    unfold Expr.Alike
    simp only [Expr.relabel, relabelFields_eq, marked, same, Relabel.span_erase]
  rw [core]
  cases isMutable with
  | true => exact yields_opening rfl rfl literal
  | false => exact yields_opening rfl rfl literal

theorem readable_arrayLiteral (each : ∀ value ∈ values, Readable value) (span : Span) :
    Readable (.arrayLiteral values span) := by
  have core : (Expr.arrayLiteral values span).core =
      list .openBracket .closeBracket (values.map Expr.lexemes) := by
    rw [Expr.core, exprLexemes_eq]
  refine readable_of_opening (by rw [core]; exact List.cons_ne_nil _ _) fun n rest enough => ?_
  have short : (joined .comma (values.map Expr.lexemes)).length ≤ n := by
    rw [core, list, between, List.length_cons, List.length_append] at enough
    omega
  rw [core]
  refine yields_opening rfl rfl (.still yields_here fun _ _ => .token yields_mark fun _ _ => ?_)
  refine .bind (yields_elements (by decide) (by decide) rfl each short rfl) fun found same => ?_
  refine .token yields_mark fun _ _ => .still (yields_spanFrom _) fun _ _ => .pure ?_
  unfold Expr.Alike
  simp only [Expr.relabel, relabelExprs_eq, same, Relabel.span_erase]

end Compound

/-! ## Expressions -/

/-- **Every expression that can be written is readable**, one form after the other. -/
theorem readable_of_printable {e : Expr} (written : e.Printable) : Readable e := by
  induction written with
  | bool => exact readable_bool _ _
  | int small => exact readable_int small _
  | double none => exact none.elim
  | string => exact readable_string _ _
  | char => exact readable_char _ _
  | symbol => exact readable_symbol _ _
  | name nameWritten notSymbol => exact readable_name nameWritten notSymbol
  | negate _ ih => exact readable_negate ih _
  | minus _ ih => exact readable_minus ih _ _
  | binary _ right ihLeft ihRight => exact readable_binary ihLeft ihRight _ _ right.isMinusOne
  | call _ _ ihCallee ihArguments => exact readable_call ihCallee ihArguments _
  | index _ _ ihBase ihPosition => exact readable_index ihBase ihPosition _
  | member _ noName ih => exact readable_member ih noName _ _
  | structLiteral _ ih => exact readable_structLiteral ih _ _
  | arrayLiteral _ ih => exact readable_arrayLiteral ih _

/-- **An expression is yielded from its lexemes**, wherever nothing behind it continues it. -/
theorem yields_expr {e : Expr} (written : e.Printable) (stops : Stops rest)
    (precedence : Precedence) : Yields (expr .standard precedence) e.lexemes rest e.Alike := by
  refine .look fun c lexemes => (readable_of_printable written).exprUpTo ?_ stops _
  exact Cursor.length_le_of_lexemes lexemes

end Parse

end FrontEnd

import FrontEnd.Proofs.Grammar.Alone
import FrontEnd.Proofs.Grammar.EchoingExpr
import FrontEnd.Proofs.Grammar.Giving
import FrontEnd.Proofs.Grammar.Spelling

/-!
# Names that expressions write

An expression in parentheses is the expression itself, and a point behind a name lengthens the name,
whatever stands around it. So an expression can be a name that the action for names would not read:
`(a)`, `(a.b).c` and `((a).b)` are the names `a`, `a.b.c` and `a.b`. The parentheses stand around
fronts of such an expression only (`Wrapped`), and without them it is spelled as a name:

    wrapped ::= bare | "(" wrapped ")" | wrapped "." anything

Every other way to begin or to continue an expression gives something that is no name.

**The law** (`Parse.writes_expr`): the tokens taken for an expression that is a name spell the name
once parentheses are left out.
-/

namespace FrontEnd

open Token Lexeme

namespace Grammar

variable {k : Kind}

/-- Only a parenthesis begins an expression in parentheses. -/
theorem kind_of_lead_group (found : standard.lead k = some .group) : k = .openParen := by
  cases k <;> first | rfl | cases found

/-- Only a point selects a member or lengthens a name. -/
theorem kind_of_follow_member (found : standard.follow k = some .member) : k = .dot := by
  cases k <;> first | rfl | cases found

/-- Only `mut` begins a declaration of a variable that may change. -/
theorem kind_of_stmt_declareMutable (found : standard.stmt k = some .declareMutable) :
    k = .mutWord := by
  cases k <;> first | rfl | cases found

end Grammar

/-! ## Tokens in parentheses -/

/-- **Tokens with parentheses** around some of their fronts, and the tokens without these. -/
inductive Wrapped : List Token → List Token → Prop
  | bare {tokens : List Token} : Wrapped tokens tokens
  | group {opening closing : Token} {inner bare : List Token} : opening.kind = .openParen →
    closing.kind = .closeParen → Wrapped inner bare → Wrapped (opening :: (inner ++ [closing])) bare
  | dotted {point : Token} {front bare more : List Token} : point.kind = .dot →
    Wrapped front bare → Wrapped (front ++ point :: more) (bare ++ point :: more)

namespace Wrapped

variable {tokens bare : List Token}

/-- Without a parenthesis among them the tokens are as they are. -/
theorem eq_of_noParen (h : Wrapped tokens bare) (none : ∀ token ∈ tokens, token.kind ≠ .openParen) :
    bare = tokens := by
  induction h with
  | bare => rfl
  | group opens => exact absurd opens (none _ List.mem_cons_self)
  | dotted _ _ ih => rw [ih fun token mem => none token (List.mem_append_left _ mem)]

/-- Parentheses are left out, and nothing else is changed. -/
theorem subset (h : Wrapped tokens bare) : bare ⊆ tokens := by
  induction h with
  | bare => exact List.Subset.refl _
  | group _ _ _ ih =>
    exact List.Subset.trans ih (List.subset_cons_of_subset _ (List.subset_append_left ..))
  | dotted _ _ ih =>
    rw [List.append_subset]
    exact ⟨List.subset_append_of_subset_left _ ih, List.subset_append_right ..⟩

end Wrapped

/-! ## Longer names -/

namespace Spelled

variable {u v : List Lexeme} {point : String} {segment : Segment} {name : Name}

/-- A further segment behind the last. -/
theorem further_concat {rest : List Segment} (front : Spelled v (.further rest))
    (behind : Spelled u (.segment segment)) :
    Spelled (v ++ (.dot, point) :: u) (.further (rest ++ [segment])) := by
  induction rest generalizing v with
  | nil =>
    cases front
    rw [List.nil_append, ← List.append_nil u]
    exact .dotted behind .last
  | cons first rest ih =>
    cases front with
    | dotted isFirst later =>
      rw [List.cons_append, List.append_assoc]
      exact .dotted isFirst (ih later)

/-- **A point and a segment lengthen a name.** -/
theorem name_concat (front : Spelled v (.name name)) (behind : Spelled u (.segment segment))
    (span : Span) :
    Spelled (v ++ (.dot, point) :: u) (.name ⟨name.segments ++ [segment], span⟩) := by
  cases front with
  | name first further =>
    rw [List.append_assoc]
    exact .name first (further.further_concat behind)

/-- A name is spelled from the kinds that stand in a list of arguments. -/
theorem inList {word : List Lexeme} {phrase : Phrase} (h : Spelled word phrase) :
    ∀ lexeme ∈ word, Lookahead.inList lexeme.1 = true := by
  induction h with
  | plain => exact List.forall_mem_singleton.2 rfl
  | applied _ _ ih =>
    refine List.forall_mem_cons.2 ⟨rfl, List.forall_mem_cons.2 ⟨rfl, ?_⟩⟩
    exact List.forall_mem_append.2 ⟨ih, List.forall_mem_singleton.2 rfl⟩
  | last | empty => exact nofun
  | dotted _ _ ih ihLater =>
    exact List.forall_mem_cons.2 ⟨rfl, List.forall_mem_append.2 ⟨ih, ihLater⟩⟩
  | name _ _ ih ihLater => exact List.forall_mem_append.2 ⟨ih, ihLater⟩
  | item _ ih => exact ih
  | more _ _ ih ihLater =>
    exact List.forall_mem_append.2 ⟨ih, List.forall_mem_cons.2 ⟨rfl, ihLater⟩⟩

end Spelled

/-! ## Expressions that are names -/

/-- **Lexemes spell an expression, if it is a name.** -/
def Expr.SpelledBy (word : List Lexeme) : Expr → Prop
  | .symbol text _ => word = [named text]
  | .name whole => Spelled word (.name whole)
  | _ => True

/-- **Tokens write an expression, if it is a name**: they spell it once parentheses are left out. -/
def Expr.WrittenBy (tokens : List Token) (value : Expr) : Prop :=
  ∃ bare, Wrapped tokens bare ∧ value.SpelledBy (bare.map Token.lexeme)

theorem Expr.writtenBy_of_not_isName {value : Expr} (noName : value.isName = false)
    (tokens : List Token) : value.WrittenBy tokens := by
  refine ⟨tokens, .bare, ?_⟩
  cases value with
  | symbol text span => cases noName
  | name name => cases noName
  | _ => exact True.intro

namespace Parse

/-- **An action writes what it gives**: the tokens that it takes write the expression. -/
abbrev Writes (action : Parse Expr) (c : Cursor) : Prop :=
  Consumes action (fun taken value => value.WrittenBy taken) c

variable {c : Cursor} {n : Nat}

/-- **What moves a cursor takes tokens**, and gives only what is good. -/
theorem consumes_of_moves {α : Type} {action : Parse α} {least : Nat} {good : α → Prop}
    (moves : Moves action least c) (gives : Gives action good) :
    Consumes action (fun _ value => good value) c := by
  refine .of_runs fun ends value c' run => ?_
  have moved := moves ends
  rw [run] at moved
  cases moved with
  | ended walks _ =>
    obtain ⟨taken, left, -⟩ := walks.exists_taken
    exact ⟨walks.ends ends, taken, left, gives.of_eq_ok run⟩

/-- Nothing is to be known of what is taken where no name is given. -/
theorem writes_of_moves {action : Parse Expr} {tokens : List Token → List Token}
    (moves : Moves action 1 c) (gives : Gives action fun value => value.isName = false) :
    Consumes action (fun taken value => value.WrittenBy (tokens taken)) c :=
  (consumes_of_moves moves gives).weaken fun _ _ noName => Expr.writtenBy_of_not_isName noName _

/-! ## What begins a name -/

theorem writes_literal {α : Type} {read : String → Option α} {build : α → Span → Expr}
    (notEnd : c.kind ≠ .eof) (noName : ∀ value span, (build value span).isName = false) :
    Writes (literal read build) c := by
  refine .advance notEnd fun _ _ => ?_
  cases read c.current.text with
  | some value => exact .pure (Expr.writtenBy_of_not_isName (noName _ _) _)
  | none => exact .halt

theorem writes_textLiteral {build : String → Span → Expr} (notEnd : c.kind ≠ .eof)
    (noName : ∀ text span, (build text span).isName = false) :
    Writes (textLiteral build) c :=
  .advance notEnd fun _ _ => .pure (Expr.writtenBy_of_not_isName (noName _ _) _)

/-- An identifier is a name, and a literal is none. -/
theorem writes_primary : Writes primary c := by
  refine .onKind ?_
  split
  next here => exact writes_literal (by rw [here]; decide) fun _ _ => rfl
  next here => exact writes_literal (by rw [here]; decide) fun _ _ => rfl
  next here =>
    exact .advance (by rw [here]; decide) fun _ _ => .pure (Expr.writtenBy_of_not_isName rfl _)
  next here =>
    exact .advance (by rw [here]; decide) fun _ _ => .pure (Expr.writtenBy_of_not_isName rfl _)
  next here => exact writes_textLiteral (by rw [here]; decide) fun _ _ => rfl
  next here => exact writes_textLiteral (by rw [here]; decide) fun _ _ => rfl
  next =>
    refine .bind consumes_identifier fun found c' taken _ spelled => ?_
    cases found with
    | plain text span =>
      refine .pure ⟨_, .bare, ?_⟩
      rw [List.append_nil]
      exact spelled
    | applied segment =>
      refine .pure ⟨_, .bare, ?_⟩
      rw [List.append_nil]
      exact Spelled.single spelled segment.span
  next => exact consumes_unexpected _

/-- Parentheses around a name. -/
theorem writes_group {expr : Precedence → Parse Expr}
    (inner : ∀ c p, c.left.length ≤ n → Writes (expr p) c) (few : c.left.length ≤ n + 1)
    (opens : c.kind = .openParen) : Writes (group expr) c := by
  refine .advance (by rw [opens]; decide) fun left _ => ?_
  have fewer : c.next.left.length ≤ n := by
    rw [left, List.length_cons] at few
    omega
  refine .bind (inner _ _ fewer) fun value c' taken _ written => ?_
  refine .bind (consumes_expect (by decide)) fun closing c'' last _ ⟨isLast, closes⟩ => .pure ?_
  subst isLast
  obtain ⟨bare, wrapped, spelled⟩ := written
  rw [List.append_nil]
  exact ⟨bare, .group opens closes wrapped, spelled⟩

/-- **What begins an expression** that is a name is an identifier or a parenthesis. -/
theorem writes_opening (inner : ∀ c p, c.left.length ≤ n → Writes (exprUpTo .standard n p) c)
    (few : c.left.length ≤ n + 1) : Writes (opening .standard (exprUpTo .standard n)) c := by
  refine .look ?_
  cases found : Grammar.standard.lead c.kind with
  | none => exact .halt
  | some form =>
    have notEnd := ne_eof_of_some Grammar.leavesEnd_standard.lead found
    have moves := moves_lead (fun c p few => moves_exprUpTo Grammar.leavesEnd_standard n p few) few
      notEnd form
    cases form with
    | primary => exact writes_primary
    | group => exact writes_group inner few (Grammar.kind_of_lead_group found)
    | sign =>
      refine writes_of_moves moves (.skip fun token => .skip fun operand => ?_)
      split
      · exact .pure rfl
      · exact .pure rfl
      · exact .pure rfl
      · exact .pure rfl
      · exact .halt
    | structLiteral =>
      exact writes_of_moves moves (.skip fun _ => .skip fun _ => .skip fun _ => .skip fun _ =>
        .skip fun _ => .skip fun _ => .pure rfl)
    | arrayLiteral =>
      exact writes_of_moves moves (.skip fun _ => .skip fun _ => .skip fun _ => .skip fun _ =>
        .skip fun _ => .pure rfl)

/-! ## What continues a name -/

/-- A point behind a name, and a segment. -/
theorem writes_member {value : Expr} {before : List Token} (point : c.kind = .dot)
    (written : value.WrittenBy before) :
    Consumes (member value) (fun taken longer => longer.WrittenBy (before ++ taken)) c := by
  have notEnd : c.kind ≠ .eof := by rw [point]; decide
  obtain ⟨bare, wrapped, spelled⟩ := written
  have isPoint : c.current.lexeme = (.dot, c.current.text) := congrArg (·, c.current.text) point
  -- The segment behind the point is taken as it is, so what is left out stands in front of it.
  have longer {taken : List Token} {longer : Name} (whole : Spelled
      (bare.map Token.lexeme ++ (.dot, c.current.text) :: taken.map Token.lexeme) (.name longer)) :
      (Expr.name longer).WrittenBy (before ++ c.current :: taken) := by
    refine ⟨bare ++ c.current :: taken, .dotted point wrapped, ?_⟩
    rw [List.map_append, List.map_cons, isPoint]
    exact whole
  cases isName : value.isName with
  | false =>
    rw [member_eq isName]
    refine .advance notEnd fun _ _ => .bind (consumes_expect (by decide)) fun field _ _ _ _ => ?_
    exact .bind (consumes_spanFrom _) fun _ _ _ _ _ => .pure (Expr.writtenBy_of_not_isName rfl _)
  | true =>
    cases value with
    | symbol text span =>
      refine .advance notEnd fun _ _ => .number ?_
      refine .bind consumes_segment fun second c' taken _ isSecond => ?_
      refine .bind (consumes_spanFrom _) fun whole c'' none _ isNone => .pure ?_
      subst isNone
      rw [List.append_nil, List.append_nil]
      refine longer ?_
      have isSpelled : bare.map Token.lexeme = [named text] := spelled
      rw [isSpelled]
      exact (Spelled.single (@Spelled.plain c.next.nextId text span) span).name_concat isSecond whole
    | name front =>
      refine .advance notEnd fun _ _ => ?_
      refine .bind consumes_segment fun second c' taken _ isSecond => ?_
      refine .bind (consumes_spanFrom _) fun whole c'' none _ isNone => .pure ?_
      subst isNone
      rw [List.append_nil, List.append_nil]
      exact longer (Spelled.name_concat spelled isSecond whole)
    | _ => cases isName

/-- **What continues an expression** to a name is a point behind a name. -/
theorem writes_extend {value : Expr} {before : List Token} (few : c.left.length ≤ n + 1)
    (goesOn : (Grammar.standard.follow c.kind).isSome) (written : value.WrittenBy before) :
    Consumes (extend .standard (exprUpTo .standard n) value)
      (fun taken longer => longer.WrittenBy (before ++ taken)) c := by
  obtain ⟨form, found⟩ := Option.isSome_iff_exists.1 goesOn
  have notEnd := ne_eof_of_some Grammar.leavesEnd_standard.follow found
  have inner (c : Cursor) (p : Precedence) (few : c.left.length ≤ n) :=
    moves_exprUpTo (c := c) Grammar.leavesEnd_standard n p few
  refine .onKind ?_
  rw [found]
  cases form with
  | member => exact writes_member (Grammar.kind_of_follow_member found) written
  | binary =>
    refine writes_of_moves (moves_binary inner few notEnd value _) (.skip fun token => ?_)
    split
    · exact .halt
    · exact .skip fun _ => .pure rfl
  | call =>
    exact writes_of_moves (moves_call inner few notEnd value) (.skip fun _ => .skip fun _ =>
      .skip fun _ => .skip fun _ => .pure rfl)
  | index =>
    exact writes_of_moves (moves_index inner few notEnd value) (.skip fun _ => .skip fun _ =>
      .skip fun _ => .skip fun _ => .pure rfl)

/-! ## Expressions -/

theorem writes_exprUpTo (n : Nat) (precedence : Precedence) (few : c.left.length ≤ n) :
    Writes (exprUpTo .standard n precedence) c := by
  induction n generalizing precedence c with
  | zero => exact .halt
  | succ n ih =>
    refine .bind (writes_opening (fun c p few => ih p few) few) fun first c' taken left written => ?_
    refine consumes_growWhile Cursor.few_of_left _ (Cursor.few_of_left few left)
      (fun value before c few goesOn written => ?_) written
    rw [continues, Bool.and_eq_true] at goesOn
    exact writes_extend few goesOn.2 written

/-- **An expression that is a name is spelled** by the tokens taken for it, once parentheses are left
out. -/
theorem writes_expr (precedence : Precedence) : Writes (expr .standard precedence) c :=
  .look (writes_exprUpTo _ precedence (Nat.le_refl _))

end Parse

end FrontEnd

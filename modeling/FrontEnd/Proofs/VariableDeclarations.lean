import FrontEnd.Proofs.CompoundAssignment
import FrontEnd.Proofs.Grammar.Wrapping
import FrontEnd.Proofs.Program.TypeName
import FrontEnd.Proofs.TypeArguments

/-!
# What a declaration of a variable is read from

A declaration that begins with `mut` has its type from the action for names. Any other begins with
an expression, and when this turns out to be a name with an identifier behind it, it is the type. So
parentheses may stand around the type, or around a part of it from its front on: `(a) b = 1;` and
`(a.b).c d = 1;` declare variables of the types `a` and `a.b.c`. A structure has no such fields, and
`mut (a) b = 1;` is refused.

**The law** (`Parse.exists_parts_of_declare`): the tokens taken for a declaration are `mut` if the
variable may change, its type, the mark of an array if it is one, the identifier, the equals sign, the
initial value and a semicolon. The value is read on its own. The type is read on its own without its
parentheses, and as it stands exactly when it has none, as it has behind `mut`.
-/

namespace FrontEnd

open Token Lexeme Lookahead

namespace Parse

/-! ## Types and values on their own -/

/-- **A type is read on its own**, up to numbers and positions: it takes all the tokens. -/
def NamesAlone (tokens : List Token) (type : Name) : Prop :=
  ∀ stop firstId, stop.kind = .eof → ∃ found c',
    name (.ofTokens (tokens ++ [stop]) firstId) = .ok found c' ∧ c'.left = [stop] ∧
      found.relabel .erase = type.relabel .erase

section Alone

variable {tokens : List Token} {type : Name} {value : Expr} {c c' : Cursor}

/-- A type is read on its own where it is spelled. -/
theorem namesAlone_of_spelled
    (spelled : Spelled ((uncommented tokens).map Token.lexeme) (.name type)) :
    NamesAlone tokens type := by
  intro stop firstId isEnd
  refine run_name_of_spelled (Cursor.ends_ofTokens _ _) (Cursor.left_ofTokens_ended isEnd _ _)
    spelled (List.cons_ne_nil _ _) ?_ (ne_of_first (congrArg some isEnd) (by decide))
  rw [List.map_singleton, isEnd]
  rfl

/-- What is read as a type on its own is spelled as a name. -/
theorem NamesAlone.exists_spelled (alone : NamesAlone tokens type) :
    ∃ found, Spelled ((uncommented tokens).map Token.lexeme) (.name found) := by
  obtain ⟨found, c', run, left, -⟩ := alone (.ending default) 0 rfl
  exact ⟨found, spelled_of_run rfl run left⟩

/-- A type on its own begins with an identifier. -/
theorem NamesAlone.first (alone : NamesAlone tokens type) :
    Lexeme.first ((uncommented tokens).map Token.lexeme) = some .identifier := by
  obtain ⟨found, spelled⟩ := alone.exists_spelled
  exact spelled.first_name

/-- A type on its own has no parentheses. -/
theorem NamesAlone.noParen (alone : NamesAlone tokens type) :
    ∀ token ∈ tokens, token.kind ≠ .openParen := by
  intro token mem opens
  obtain ⟨found, spelled⟩ := alone.exists_spelled
  have seen : token ∈ uncommented tokens :=
    List.mem_filter.2 ⟨mem, by rw [opens]; rfl⟩
  have listed : inList token.kind = true := spelled.inList _ (List.mem_map_of_mem seen)
  rw [opens] at listed
  cases listed

/-- **An expression in front of a semicolon is read on its own** from the tokens that were taken for
it: the run is repeated on them. -/
theorem readsAlone_of_run (ends : c.Ends) (seen : ∀ token ∈ c.left, token.kind ≠ .comment)
    (run : expr .standard .loosest c = .ok value c') (isSemicolon : c'.kind = .semicolon) :
    ∃ taken, c.left = taken ++ c'.left ∧ ReadsAlone .semicolon taken value := by
  have endsThen : c'.Ends := (exists_left_of_expr ends run).1
  have last : c'.current.kind ≠ .comment ∧ c'.current.kind ≠ .eof := by
    rw [← Cursor.kind, isSemicolon]
    decide
  have atSemicolon := Cursor.left_next (endsThen.ahead_ne_nil last.2)
  let x : Excerpt :=
    { before := c.behind, rest := c'.next.left, ending := .ending c'.current.span.stop,
      more := List.cons_ne_nil _ _, ends := endsThen.next.left, ended := rfl }
  have confined : Confined x 0 1 1 (expr .standard .loosest) (expr .standard .loosest) :=
    confined_expr .loosest
  obtain ⟨front, one⟩ := confined run
  have known : uncommented front = front := List.filter_eq_self.2 fun token mem =>
    decide_eq_true (seen token (one.left ▸ List.mem_append_left _ mem))
  let d := Cursor.ofTokens (front ++ [c'.current]) c.nextId
  have there : d.left = front ++ [c'.current, x.ending] := by
    rw [Cursor.left_ofTokens last.1 last.2, known]
  have beside : x.Beside (front ++ [c'.current]) c d := by
    refine ⟨?_, ?_, ?_, Cursor.nextId_ofTokens _ _, fun token mem => ?_⟩
    · rw [one.left, atSemicolon, List.append_assoc]
      rfl
    · rw [there, List.append_assoc]
      rfl
    · rw [Cursor.behind_ofTokens]
      rfl
    · rw [List.getLast?_concat] at mem
      cases mem
      rw [← Cursor.kind, isSemicolon]
      rfl
  refine ⟨front, one.left, c'.current, c.nextId, ?_⟩
  rcases one.again (e := [c'.current]) atSemicolon (Nat.le_refl _) beside (Nat.zero_le _) with
    ⟨d', again, besideLast, -⟩ | ⟨d', spent⟩
  · exact ⟨d', isSemicolon, again, besideLast.there⟩
  · have moves := moves_expr (c := d) Grammar.leavesEnd_standard Precedence.loosest
    exact absurd spent (moves.not_exhausted (Cursor.ends_ofTokens _ _))

end Alone

/-! ## The parts of a declaration -/

/-- The kinds of the mark of an array. -/
def markKinds (isArray : Bool) : List Kind :=
  if isArray then [.openBracket, .closeBracket] else []

theorem consumes_arrayMark {c : Cursor} :
    Consumes arrayMark (fun taken isArray => taken.map Token.kind = markKinds isArray) c := by
  unfold arrayMark
  rw [consume_bind]
  refine .look (.ite (fun opens => ?_) fun _ => .pure rfl)
  have isOpen : c.kind = .openBracket := of_decide_eq_true opens
  refine .advance (by rw [isOpen]; decide) fun _ _ => ?_
  refine .bind (consumes_expect (by decide)) fun close _ taken _ ⟨isTaken, closes⟩ => .pure ?_
  rw [isTaken]
  exact congrArg₂ (fun k l => [k, l]) isOpen closes

end Parse

/-- **The tokens of a declaration of a variable**, in their order. -/
structure VariableParts where
  opening : List Token
  type : List Token
  mark : List Token
  name : Token
  equals : Token
  value : List Token
  semicolon : Token

namespace VariableParts

/-- All tokens of a declaration. -/
def tokens (p : VariableParts) : List Token :=
  p.opening ++ (p.type ++ (p.mark ++ p.name :: p.equals :: (p.value ++ [p.semicolon])))

/-- **Tokens declare a variable**, each part in its place. -/
structure Declare (p : VariableParts) (isMutable : Bool) (type : Name) (isArray : Bool)
    (text : String) (initial : Expr) : Prop where
  opens : p.opening.map Token.kind = if isMutable then [.mutWord] else []
  typed : ∃ bare, Wrapped p.type bare ∧ Parse.NamesAlone bare type
  alone : Parse.NamesAlone p.type type ↔ ∀ token ∈ p.type, token.kind ≠ .openParen
  plain : isMutable = true → Parse.NamesAlone p.type type
  marks : p.mark.map Token.kind = Parse.markKinds isArray
  named : p.name.kind = .identifier ∧ p.name.text = text
  assigns : p.equals.kind = .assignment
  initial : Parse.ReadsAlone .semicolon p.value initial
  ends : p.semicolon.kind = .semicolon

end VariableParts

namespace Parse

section Declaration

variable {c c' : Cursor} {isMutable isArray : Bool} {type : Name} {text : String} {initial : Expr}
  {span : Span}

/-- **What stands behind the type** of a declaration. -/
theorem exists_of_declaration {start : Position} (ends : c.Ends)
    (seen : ∀ token ∈ c.left, token.kind ≠ .comment)
    (run : declaration .standard isMutable type start c =
      .ok (.declare isMutable type isArray text initial span) c') :
    ∃ mark name equals value semicolon,
      c.left = mark ++ name :: equals :: (value ++ semicolon :: c'.left) ∧
      mark.map Token.kind = markKinds isArray ∧
      (name.kind = .identifier ∧ name.text = text) ∧ equals.kind = .assignment ∧
      ReadsAlone .semicolon value initial ∧ semicolon.kind = .semicolon := by
  obtain ⟨array, c₁, markRun, run⟩ := bind_eq_ok.1 run
  obtain ⟨name, c₂, nameRun, run⟩ := bind_eq_ok.1 run
  obtain ⟨equals, c₃, equalsRun, run⟩ := bind_eq_ok.1 run
  obtain ⟨value, c₄, valueRun, run⟩ := bind_eq_ok.1 run
  obtain ⟨semicolon, c₅, semicolonRun, run⟩ := bind_eq_ok.1 run
  obtain ⟨whole, _, spanned, run⟩ := bind_eq_ok.1 run
  cases spanned
  cases run
  obtain ⟨ends₁, mark, left, marks⟩ := consumes_arrayMark.of_eq_ok ends markRun
  obtain ⟨ends₂, _, left₁, rfl, isName⟩ :=
    (consumes_expect (by decide)).of_eq_ok ends₁ nameRun
  obtain ⟨ends₃, _, left₂, rfl, isEquals⟩ :=
    (consumes_expect (by decide)).of_eq_ok ends₂ equalsRun
  have split : c.left = mark ++ name :: equals :: c₃.left := by
    rw [left, left₁, left₂]
    rfl
  obtain ⟨taken, left₃, alone⟩ := readsAlone_of_run ends₃
    (fun token mem => seen token (by simp [split, mem])) valueRun (kind_of_run_expect semicolonRun)
  have ends₄ : c₄.Ends := (exists_left_of_expr ends₃ valueRun).1
  obtain ⟨-, _, left₄, rfl, isSemicolon⟩ :=
    (consumes_expect (by decide)).of_eq_ok ends₄ semicolonRun
  refine ⟨mark, name, equals, taken, semicolon, ?_, marks, ⟨isName, rfl⟩, isEquals, alone,
    isSemicolon⟩
  rw [split, left₃, left₄]
  rfl

/-! ## The type of a declaration -/

/-- **Tokens write the type of a variable** behind those that open its declaration: `mut` and a name,
or a name with parentheses. -/
structure WritesType (isMutable : Bool) (type : Name) (opening tokens : List Token) : Prop where
  opens : opening.map Token.kind = if isMutable then [.mutWord] else []
  wrapped : ∃ bare, Wrapped tokens bare ∧ Spelled (bare.map Token.lexeme) (.name type)
  plain : isMutable = true → Spelled (tokens.map Token.lexeme) (.name type)

/-- What assigns or is an expression on its own declares nothing. -/
theorem gives_assignment_noType {g : Grammar} (target : Expr) (start : Position) :
    Gives (assignment g target start) fun stmt => stmt.declaredType? = none := by
  refine .skip fun kind => ?_
  split
  · exact .skip fun _ => .skip fun _ => .pure rfl
  · split
    · exact .skip fun _ => .skip fun _ => .skip fun _ => .skip fun _ => .pure rfl
    · exact .halt

/-- **A declaration that begins with an expression** has its type there. -/
theorem exists_of_simple (ends : c.Ends)
    (run : simple .standard c = .ok (.declare isMutable type isArray text initial span) c') :
    ∃ taken behind, c.left = taken ++ behind.left ∧ behind.Ends ∧
      WritesType isMutable type [] taken ∧ declaration .standard isMutable type c.here behind =
        .ok (.declare isMutable type isArray text initial span) c' := by
  have declares : (Stmt.declare isMutable type isArray text initial span).declaredType? ≠ none :=
    Option.some_ne_none type
  obtain ⟨start, _, looked, run⟩ := bind_eq_ok.1 run
  cases looked
  obtain ⟨first, atType, firstRun, run⟩ := bind_eq_ok.1 run
  obtain ⟨endsType, taken, left, bare, wrapped, spelled⟩ :=
    (writes_expr .loosest).of_eq_ok ends firstRun
  rw [get_bind] at run
  split at run
  · split at run
    next symbol place =>
      obtain ⟨id, behind, numbered, run⟩ := bind_eq_ok.1 run
      cases numbered
      obtain ⟨_, _, _, _, same⟩ := (gives_declare _ _ _).of_eq_ok run
      cases same
      have isSpelled : bare.map Token.lexeme = [named symbol] := spelled
      refine ⟨taken, { atType with nextId := atType.nextId + 1 }, left, endsType,
        ⟨rfl, ⟨bare, wrapped, ?_⟩, fun isMut => absurd isMut Bool.false_ne_true⟩, run⟩
      rw [isSpelled]
      exact Spelled.single .plain place
    next whole =>
      obtain ⟨_, _, _, _, same⟩ := (gives_declare _ _ _).of_eq_ok run
      cases same
      exact ⟨taken, atType, left, endsType, ⟨rfl, ⟨bare, wrapped, spelled⟩,
        fun isMut => absurd isMut Bool.false_ne_true⟩, run⟩
    next => exact absurd ((gives_assignment_noType _ _).of_eq_ok run) declares
  · exact absurd ((gives_assignment_noType _ _).of_eq_ok run) declares

/-- **A declaration that begins with `mut`** has a name behind it. -/
theorem exists_of_declareMutable (ends : c.Ends) (here : c.kind = .mutWord)
    (run : declareMutable .standard c =
      .ok (.declare isMutable type isArray text initial span) c') :
    ∃ taken behind, c.left = c.current :: (taken ++ behind.left) ∧ behind.Ends ∧
      WritesType isMutable type [c.current] taken ∧
      declaration .standard isMutable type c.here behind =
        .ok (.declare isMutable type isArray text initial span) c' := by
  obtain ⟨_, _, advanced, run⟩ := bind_eq_ok.1 run
  cases advanced
  obtain ⟨found, behind, nameRun, run⟩ := bind_eq_ok.1 run
  obtain ⟨_, _, _, _, same⟩ := (gives_declare _ _ _).of_eq_ok run
  cases same
  have left := Cursor.left_next (ends.ahead_ne_nil (by rw [here]; decide))
  obtain ⟨endsType, taken, leftType, spelled⟩ := consumes_name.of_eq_ok ends.next nameRun
  refine ⟨taken, behind, by rw [left, leftType], endsType, ⟨?_, ⟨taken, .bare, spelled⟩, ?_⟩, run⟩
  · exact congrArg (fun k => [k]) here
  · exact fun _ => spelled

/-- **The type of a declaration is written** where the declaration begins. -/
theorem exists_of_declare (ends : c.Ends)
    (run : stmt .standard c = .ok (.declare isMutable type isArray text initial span) c') :
    ∃ opening taken behind, c.left = opening ++ (taken ++ behind.left) ∧ behind.Ends ∧
      WritesType isMutable type opening taken ∧
      declaration .standard isMutable type c.here behind =
        .ok (.declare isMutable type isArray text initial span) c' := by
  cases told : Grammar.standard.stmt c.kind with
  | none =>
    rw [stmt_eq_simple told] at run
    obtain ⟨taken, behind, found⟩ := exists_of_simple ends run
    exact ⟨[], taken, behind, found⟩
  | some form =>
    obtain ⟨n, same⟩ := exists_stmt_eq c
    rw [told] at same
    have run := same.symm.trans run
    have isForm := (gives_formStmt_form form).of_eq_ok run
    cases isMutable with
    | false => cases isForm
    | true =>
      cases isForm
      obtain ⟨taken, behind, found⟩ :=
        exists_of_declareMutable ends (Grammar.kind_of_stmt_declareMutable told) run
      exact ⟨[c.current], taken, behind, found⟩

/-- **What a declaration of a variable is read from.** Wherever a statement is read in some tokens and
declares a variable, the tokens taken for it are the parts of a declaration, each in its place. -/
theorem exists_parts_of_declare {tokens : List Token} {firstId : Nat}
    (walks : (Cursor.ofTokens tokens firstId).Walks c)
    (run : stmt .standard c = .ok (.declare isMutable type isArray text initial span) c') :
    ∃ p : VariableParts, c.left = p.tokens ++ c'.left ∧
      p.Declare isMutable type isArray text initial := by
  have valid := walks.valid
  have seen : ∀ token ∈ c.left, token.kind ≠ .comment := fun token mem =>
    valid.noComment token (List.mem_append_right _ mem)
  obtain ⟨opening, front, behind, left, endsBehind, writes, run⟩ := exists_of_declare valid.ends run
  obtain ⟨mark, name, equals, value, semicolon, leftBehind, marks, named, assigns, alone, ended⟩ :=
    exists_of_declaration endsBehind (fun token mem => seen token (by simp [left, mem])) run
  refine ⟨⟨opening, front, mark, name, equals, value, semicolon⟩, ?_, ?_⟩
  · simp [VariableParts.tokens, left, leftBehind]
  obtain ⟨bare, wrapped, spelled⟩ := writes.wrapped
  have known (tokens : List Token) (among : tokens ⊆ front) : uncommented tokens = tokens :=
    List.filter_eq_self.2 fun token mem =>
      decide_eq_true (seen token (by simp [left, among mem]))
  have typed : NamesAlone bare type :=
    namesAlone_of_spelled (by rwa [known bare wrapped.subset])
  refine ⟨writes.opens, ⟨bare, wrapped, typed⟩, ⟨NamesAlone.noParen, fun none => ?_⟩,
    fun isMutable => ?_, marks, named, assigns, alone, ended⟩
  · rwa [← wrapped.eq_of_noParen none]
  · exact namesAlone_of_spelled (by
      rw [known front (List.Subset.refl _)]
      exact writes.plain isMutable)

end Declaration

/-- The tokens of `(a) b = 1;`. -/
def parenthesised : List Token :=
  [tokenAt 0 .openParen "(", tokenAt 1 .identifier "a", tokenAt 2 .closeParen ")",
    tokenAt 4 .identifier "b", tokenAt 6 .assignment "=", tokenAt 8 .int "1",
    tokenAt 9 .semicolon ";"]

/-- The type that `(a) b = 1;` declares a variable of. -/
def parenthesisedType : Name :=
  .single 0 "a" ⟨⟨1, 1, "shell"⟩, ⟨2, 1, "shell"⟩⟩

/-- `(a) b = 1;` declares a variable, and its tokens are the parts of a declaration. -/
theorem exists_parts_of_declare_parenthesised : ∃ initial span c',
    stmt .standard (.ofTokens parenthesised 0) =
      .ok (.declare false parenthesisedType false "b" initial span) c' ∧
    ∃ p : VariableParts, (Cursor.ofTokens parenthesised 0).left = p.tokens ++ c'.left ∧
      p.Declare false parenthesisedType false "b" initial :=
  ⟨_, _, _, rfl, exists_parts_of_declare .refl rfl⟩

/-- **A type in parentheses**: `(a) b = 1;` declares a variable of the type `a`, and no tokens from
its start on are read as this type on their own. -/
theorem declare_parenthesised : ∃ initial span c',
    stmt .standard (.ofTokens parenthesised 0) =
      .ok (.declare false parenthesisedType false "b" initial span) c' ∧ c'.ahead = [] ∧
    ∀ front behind, parenthesised = front ++ behind → ¬ NamesAlone front parenthesisedType := by
  refine ⟨_, _, _, rfl, rfl, fun front behind split alone => ?_⟩
  cases front with
  | nil => cases alone.first
  | cons first rest =>
    obtain ⟨rfl, -⟩ := List.cons.inj split
    exact alone.noParen _ List.mem_cons_self rfl

end Parse

end FrontEnd

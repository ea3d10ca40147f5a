import FrontEnd.Proofs.Grammar.EchoingExpr
import FrontEnd.Proofs.Grammar.Entering

/-!
# The elements of a list

An argument of a call or a value of an array is an expression between commas. Each is parsed where it
stands, with the elements that follow still ahead of it, and the lookahead behind a name reads on
through them: in `f(a < b, c > (d))` it finds `a` with the arguments `b` and `c`, where `a < b` on its
own is a comparison.

**The law** (`Parse.listed_elements`): unless a list of arguments opens behind one of their names
without arguments, the elements of a list are what they are on their own, one by one and in their order.
-/

namespace FrontEnd

open Token Lookahead

namespace Cursor

/-- **No list of arguments opens behind the names without arguments** of some expressions, where their
identifiers stand among the tokens of a cursor. -/
def Undisturbed (c : Cursor) (values : List Expr) : Prop :=
  ∀ i < c.tokens.length, ∀ name ∈ c.tokens[i]?, name.kind = .identifier →
    name.span ∈ values.flatMap Expr.bare → argumentListEnd? c.tokens (i + 1) = none

instance (c : Cursor) (values : List Expr) : Decidable (c.Undisturbed values) :=
  inferInstanceAs (Decidable (∀ i < c.tokens.length, ∀ name ∈ c.tokens[i]?, _))

theorem Undisturbed.noListIn {c : Cursor} {values : List Expr} (h : c.Undisturbed values) :
    NoListIn (values.flatMap Expr.bare) c.tokens [] := by
  intro front name behind split identifier mem
  have here : c.tokens[front.length]? = some name := by
    rw [split, List.getElem?_append_right (Nat.le_refl _), Nat.sub_self]
    rfl
  have within : front.length < c.tokens.length := (List.getElem?_eq_some_iff.1 here).1
  have none := Option.map_eq_none_iff.1 (h _ within name here identifier mem)
  have left : c.tokens.drop (front.length + 1) = behind := by
    rw [split, ← List.drop_drop, List.drop_left]
    rfl
  rwa [left, ← List.append_nil behind] at none

end Cursor

/-- **The brackets that close a list of expressions.** -/
def Closing (k : Kind) : Prop :=
  k = .closeParen ∨ k = .closeBracket

/-- **The kinds that end an element of a list**: none of them goes on with an expression. -/
def Inert (k : Kind) : Prop :=
  k = .comma ∨ Closing k

namespace Parse

/-! ## An element on its own -/

/-- **An expression is read on its own** from tokens in front of a token of a kind: it takes them all. -/
def ReadsAlone (closing : Kind) (tokens : List Token) (value : Expr) : Prop :=
  ∃ token firstId c', token.kind = closing ∧
    expr .standard .loosest (.ofTokens (tokens ++ [token]) firstId) = .ok value c' ∧
    c'.left = [token, .ending token.span.stop]

theorem follow_of_inert {k : Kind} (inert : Inert k) : Grammar.standard.follow k = none := by
  rcases inert with rfl | rfl | rfl <;> rfl

theorem lead_of_closing {k : Kind} (closes : Closing k) : Grammar.standard.lead k = none := by
  rcases closes with rfl | rfl <;> rfl

/-- An expression begins with a token that leads one. -/
theorem lead_of_run_exprUpTo {g : Grammar} {n : Nat} {precedence : Precedence} {value : Expr}
    {c c' : Cursor} (run : exprUpTo g n precedence c = .ok value c') : g.lead c.kind ≠ none := by
  cases n with
  | zero => exact absurd run throw_ne_ok
  | succ n =>
    intro none
    obtain ⟨first, between, opened, -⟩ := bind_eq_ok.1 run
    unfold opening at opened
    rw [get_bind, none] at opened
    exact absurd opened throw_ne_ok

section Element

variable {closing : Kind} {tokens : List Token} {value : Expr}

/-- The run that reads an expression on its own. -/
theorem ReadsAlone.run (alone : ReadsAlone closing tokens value) (closes : Closing closing) :
    ∃ token c c', token.kind = closing ∧
      c.left = uncommented tokens ++ [token, .ending token.span.stop] ∧
      exprUpTo .standard ((uncommented tokens).length + 2) .loosest c = .ok value c' ∧
      c'.left = [token, .ending token.span.stop] := by
  obtain ⟨token, firstId, c', isClosing, run, left⟩ := alone
  have entered : (Cursor.ofTokens (tokens ++ [token]) firstId).left =
      uncommented tokens ++ [token, .ending token.span.stop] := by
    apply Cursor.left_ofTokens
    · rcases closes with here | here <;> rw [isClosing, here] <;> nofun
    · rcases closes with here | here <;> rw [isClosing, here] <;> nofun
  refine ⟨token, _, c', isClosing, entered, ?_, left⟩
  unfold expr at run
  rwa [get_bind, entered, List.length_append] at run

/-- An expression has a first token, and this is no bracket that closes. -/
theorem ReadsAlone.first (alone : ReadsAlone closing tokens value) (closes : Closing closing) :
    ∃ first rest, uncommented tokens = first :: rest ∧ ¬ Closing first.kind := by
  obtain ⟨token, c, c', isClosing, left, run, -⟩ := alone.run closes
  have leads := lead_of_run_exprUpTo run
  cases split : uncommented tokens with
  | nil =>
    have here : c.current = token := by
      rw [split] at left
      exact (List.cons.inj left).1
    rw [Cursor.kind, here, isClosing, lead_of_closing closes] at leads
    exact absurd rfl leads
  | cons first rest =>
    have here : c.current = first := by
      rw [split] at left
      exact (List.cons.inj left).1
    refine ⟨first, rest, rfl, fun isClosing => leads ?_⟩
    rw [Cursor.kind, here, lead_of_closing isClosing]

/-- **An element is read among others** as on its own, if no list opens behind its names. -/
theorem ReadsAlone.among (alone : ReadsAlone closing tokens value) (closes : Closing closing)
    {mark : Token} {more : List Token} (marks : Inert mark.kind) (some : more ≠ [])
    (clear : NoListIn value.bare (uncommented tokens ++ mark :: more) []) {n : Nat}
    (deep : (uncommented tokens).length + 2 ≤ n) {d : Cursor}
    (there : d.left = uncommented tokens ++ mark :: more) :
    ∃ found d', exprUpTo .standard n .loosest d = .ok found d' ∧ d'.left = mark :: more ∧
      found.relabel .erase = value.relabel .erase := by
  obtain ⟨token, c, c', isClosing, left, run, ended⟩ := alone.run closes
  have binding : (Grammar.standard.binding mark.kind).rank = 0 := by
    rcases marks with here | here | here <;> rw [here] <;> rfl
  refine exprUpTo_again run left ended ?_ (follow_of_inert (.inr (isClosing ▸ closes))) ?_ ?_
    (binding ▸ Nat.zero_le _) (binding ▸ Nat.zero_le _) (List.cons_ne_nil _ _)
    (List.length_pos_iff.2 some) deep there
  · rcases closes with rfl | rfl <;> rw [isClosing] <;> rfl
  · rcases marks with here | here | here <;> rw [here] <;> nofun
  · intro _
    rw [← List.append_nil (mark :: more)]
    exact clear.inFront

end Element

/-! ## The elements between commas -/

/-- **Elements with commas between them.** -/
inductive Listed : List (List Token) → List Token → Prop
  | none : Listed [] []
  | last {element : List Token} : Listed [element] element
  | more {element next : List Token} {rest : List (List Token)} {comma : Token}
      {tokens : List Token} : comma.kind = .comma → Listed (next :: rest) tokens →
      Listed (element :: next :: rest) (element ++ comma :: tokens)

namespace Listed

variable {elements : List (List Token)} {tokens : List Token}

theorem uncommented_more {element : List Token} {comma : Token} (isComma : comma.kind = .comma) :
    uncommented (element ++ comma :: tokens) = uncommented element ++ comma :: uncommented tokens := by
  rw [uncommented_append, uncommented_cons (by rw [isComma]; nofun)]

/-- No element is longer than the list. -/
theorem length_le (listed : Listed elements tokens) :
    ∀ element ∈ elements, (uncommented element).length ≤ (uncommented tokens).length := by
  induction listed with
  | none => nofun
  | last => exact List.forall_mem_singleton.2 (Nat.le_refl _)
  | more isComma _ ih =>
    rw [uncommented_more isComma, List.length_append, List.length_cons]
    refine List.forall_mem_cons.2 ⟨Nat.le_add_right .., fun element mem => ?_⟩
    have shorter := ih element mem
    omega

/-- There are no more elements than tokens, and one. -/
theorem length_elements_le (listed : Listed elements tokens) :
    elements.length ≤ (uncommented tokens).length + 1 := by
  induction listed with
  | none => exact Nat.zero_le _
  | last => exact Nat.le_add_left ..
  | more isComma _ ih =>
    rw [uncommented_more isComma, List.length_append, List.length_cons]
    simp only [List.length_cons] at ih ⊢
    omega

end Listed

/-- The first token that is left is the current one. -/
theorem kind_of_left_cons {c : Cursor} {token : Token} {rest : List Token}
    (left : c.left = token :: rest) : c.kind = token.kind :=
  congrArg Token.kind (List.cons.inj left).1

section Elements

variable {closing : Kind} {elements : List (List Token)} {values : List Expr} {tokens : List Token}

theorem run_separator_comma {c : Cursor} (here : c.kind = .comma) :
    separator closing c = .ok () c.next := by
  unfold separator
  rw [get_bind, if_pos here]
  rfl

theorem run_separator_closing {c : Cursor} (closes : Closing closing) (here : c.kind = closing) :
    separator closing c = .ok () c := by
  unfold separator
  have noComma : c.kind ≠ .comma := by
    rcases closes with rfl | rfl <;> rw [here] <;> nofun
  rw [get_bind, if_neg noComma, if_pos here]
  rfl

/-- **Elements between commas are read** one by one, each as on its own. -/
theorem elements_among (closes : Closing closing)
    (alone : List.Forall₂ (ReadsAlone closing) elements values) (listed : Listed elements tokens)
    {close : Token} {after : List Token} (isClose : close.kind = closing) (some : after ≠ [])
    (clear : NoListIn (values.flatMap Expr.bare) (uncommented tokens ++ close :: after) [])
    {depth : Nat} (deep : ∀ element ∈ elements, (uncommented element).length + 2 ≤ depth)
    {n : Nat} (enough : elements.length ≤ n) {d : Cursor}
    (there : d.left = uncommented tokens ++ close :: after) :
    ∃ found d', repeatUpTo (fun c => c.kind ≠ closing) (do
        let value ← exprUpTo .standard depth .loosest
        separator closing
        return value) n d = .ok found d' ∧ d'.left = close :: after ∧
      found.map (Expr.relabel .erase) = values.map (Expr.relabel .erase) := by
  have stops {d : Cursor} (left : d.left = close :: after) : decide (d.kind ≠ closing) = false := by
    rw [kind_of_left_cons left, isClose]
    exact decide_eq_false (absurd rfl)
  have goes {element : List Token} {value : Expr} (one : ReadsAlone closing element value)
      {d : Cursor} {more : List Token} (left : d.left = uncommented element ++ more) :
      decide (d.kind ≠ closing) = true := by
    obtain ⟨first, rest, split, notClosing⟩ := one.first closes
    rw [split] at left
    rw [kind_of_left_cons left]
    exact decide_eq_true fun same => notClosing (same ▸ closes)
  induction listed generalizing values n d with
  | none =>
    cases alone
    exact ⟨[], d, run_repeatUpTo_nil (stops there), there, rfl⟩
  | last =>
    cases alone with
    | @cons element value _ _ one none =>
      cases none
      cases n with
      | zero => cases enough
      | succ n =>
        rw [List.flatMap_singleton] at clear
        obtain ⟨found, between, run, left, alike⟩ := one.among closes (.inr (isClose ▸ closes)) some
          clear (deep _ List.mem_cons_self) there
        have separated := run_separator_closing closes ((kind_of_left_cons left).trans isClose)
        refine ⟨[found], between, run_repeatUpTo_cons (goes one there) ?_
          (run_repeatUpTo_nil (stops left)), left, congrArg (· :: []) alike⟩
        exact bind_eq_ok.2 ⟨found, between, run, bind_eq_ok.2 ⟨(), between, separated, rfl⟩⟩
  | more isComma listed ih =>
    cases alone with
    | @cons element value _ values one others =>
      cases n with
      | zero => cases enough
      | succ n =>
        rw [Listed.uncommented_more isComma, List.append_assoc, List.cons_append] at clear there
        rw [List.flatMap_cons] at clear
        obtain ⟨found, between, run, left, alike⟩ := one.among closes (.inl isComma) (by simp)
          (clear.mono (List.subset_append_left ..)) (deep _ List.mem_cons_self) there
        have isHere : between.kind = .comma := (kind_of_left_cons left).trans isComma
        obtain ⟨-, leftThen⟩ := Cursor.next_of_left left (by simp)
        obtain ⟨rest, d', restRun, ended, restAlike⟩ := ih others
          ((clear.mono (List.subset_append_right ..)).behind.tail)
          (fun element mem => deep element (List.mem_cons_of_mem _ mem))
          (Nat.le_of_succ_le_succ enough) leftThen
        refine ⟨found :: rest, d', run_repeatUpTo_cons (goes one there) ?_ restRun, ended, ?_⟩
        · exact bind_eq_ok.2 ⟨found, between, run,
            bind_eq_ok.2 ⟨(), between.next, run_separator_comma isHere, rfl⟩⟩
        · rw [List.map_cons, List.map_cons, alike, restAlike]

/-- **A list of elements is read** up to its closing bracket. -/
theorem separated_elements (closes : Closing closing)
    (alone : List.Forall₂ (ReadsAlone closing) elements values) (listed : Listed elements tokens)
    {close : Token} {after : List Token} (isClose : close.kind = closing) (some : after ≠ [])
    (clear : NoListIn (values.flatMap Expr.bare) (uncommented tokens ++ close :: after) [])
    {depth : Nat} (deep : (uncommented tokens).length + 2 ≤ depth) {d : Cursor}
    (there : d.left = uncommented tokens ++ close :: after) :
    ∃ found d', separated closing (exprUpTo .standard depth .loosest) d = .ok found d' ∧
      d'.left = close :: after ∧
      found.map (Expr.relabel .erase) = values.map (Expr.relabel .erase) := by
  have enough : elements.length ≤ d.left.length := by
    have counted := listed.length_elements_le
    rw [there, List.length_append, List.length_cons]
    omega
  refine elements_among closes alone listed isClose some clear (fun element mem => ?_) enough there
  exact Nat.le_trans (Nat.add_le_add_right (listed.length_le element mem) 2) deep

end Elements

/-! ## Calls and arrays -/

section Runs

variable {inner : Precedence → Parse Expr} {found : List Expr} {c between : Cursor}

/-- The run of an array behind that of its elements. -/
theorem run_arrayLiteral (opens : c.kind = .openBracket)
    (run : separated .closeBracket (inner .loosest) c.next = .ok found between)
    (closes : between.kind = .closeBracket) :
    arrayLiteral inner c =
      .ok (.arrayLiteral found ⟨c.here, between.next.reached⟩) between.next := by
  refine bind_eq_ok.2 ⟨c.here, c, rfl, bind_eq_ok.2 ⟨_, _, run_expect opens, ?_⟩⟩
  exact bind_eq_ok.2 ⟨found, between, run, bind_eq_ok.2 ⟨_, _, run_expect closes, rfl⟩⟩

/-- The run of a call behind that of its arguments. -/
theorem run_call (callee : Expr)
    (run : separated .closeParen (inner .loosest) c.next = .ok found between)
    (closes : between.kind = .closeParen) :
    call inner callee c =
      .ok (.call callee found ⟨callee.span.start, between.next.reached⟩) between.next := by
  refine bind_eq_ok.2 ⟨c.current, c.next, rfl, bind_eq_ok.2 ⟨found, between, run, ?_⟩⟩
  exact bind_eq_ok.2 ⟨_, _, run_expect closes, rfl⟩

end Runs

/-- Nothing continues an expression at the end. -/
theorem continues_of_eof {precedence : Precedence} {c : Cursor} (here : c.kind = .eof) :
    continues .standard precedence c = false := by
  rw [continues, here]
  exact Bool.and_false _

theorem continues_of_ending {precedence : Precedence} {c : Cursor} {position : Position}
    (left : c.left = [.ending position]) : continues .standard precedence c = false :=
  continues_of_eof (kind_of_left_cons left)

section Lists

variable {elements : List (List Token)} {values : List Expr} {tokens : List Token}
  {start stop : Token} {firstId : Nat}

/-- **An array is read element by element.** -/
theorem array_elements (opens : start.kind = .openBracket) (closes : stop.kind = .closeBracket)
    (listed : Listed elements tokens)
    (alone : List.Forall₂ (ReadsAlone .closeBracket) elements values)
    (undisturbed : (Cursor.ofTokens (start :: tokens ++ [stop]) firstId).Undisturbed values) :
    ∃ found span c', expr .standard .loosest (.ofTokens (start :: tokens ++ [stop]) firstId) =
        .ok (.arrayLiteral found span) c' ∧ c'.kind = .eof ∧
      found.map (Expr.relabel .erase) = values.map (Expr.relabel .erase) := by
  have left : (Cursor.ofTokens (start :: tokens ++ [stop]) firstId).left =
      start :: (uncommented tokens ++ [stop, .ending stop.span.stop]) := by
    rw [Cursor.left_ofTokens (by rw [closes]; nofun) (by rw [closes]; nofun),
      uncommented_cons (by rw [opens]; nofun), List.cons_append]
  have clear := undisturbed.noListIn
  rw [Cursor.tokens_eq_left, left] at clear
  generalize Cursor.ofTokens (start :: tokens ++ [stop]) firstId = c at left
  obtain ⟨-, leftNext⟩ := Cursor.next_of_left left (by simp)
  have here : c.kind = .openBracket := (kind_of_left_cons left).trans opens
  obtain ⟨found, between, run, atStop, alike⟩ := separated_elements (.inr rfl) alone listed closes
    (by simp) clear.tail (Nat.le_refl _) leftNext
  have isStop : between.kind = .closeBracket := (kind_of_left_cons atStop).trans closes
  obtain ⟨-, atEnd⟩ := Cursor.next_of_left atStop (by simp)
  have opened : opening .standard (exprUpTo .standard ((uncommented tokens).length + 2)) c =
      .ok (.arrayLiteral found ⟨c.here, between.next.reached⟩) between.next := by
    unfold opening
    rw [get_bind, here]
    exact run_arrayLiteral here run isStop
  refine ⟨found, ⟨c.here, between.next.reached⟩, between.next, ?_, kind_of_left_cons atEnd, alike⟩
  unfold expr
  rw [get_bind, left, List.length_cons, List.length_append]
  exact bind_eq_ok.2 ⟨_, _, opened, run_growWhile_none (continues_of_ending atEnd)⟩

/-- **A call is read argument by argument.** -/
theorem call_elements {name : Token} (isName : name.kind = .identifier)
    (opens : start.kind = .openParen) (closes : stop.kind = .closeParen)
    (listed : Listed elements tokens)
    (alone : List.Forall₂ (ReadsAlone .closeParen) elements values)
    (undisturbed :
      (Cursor.ofTokens (name :: start :: tokens ++ [stop]) firstId).Undisturbed values) :
    ∃ found span c', expr .standard .loosest
        (.ofTokens (name :: start :: tokens ++ [stop]) firstId) =
          .ok (.call (.symbol name.text name.span) found span) c' ∧ c'.kind = .eof ∧
      found.map (Expr.relabel .erase) = values.map (Expr.relabel .erase) := by
  have left : (Cursor.ofTokens (name :: start :: tokens ++ [stop]) firstId).left =
      name :: start :: (uncommented tokens ++ [stop, .ending stop.span.stop]) := by
    rw [Cursor.left_ofTokens (by rw [closes]; nofun) (by rw [closes]; nofun),
      uncommented_cons (by rw [isName]; nofun), uncommented_cons (by rw [opens]; nofun),
      List.cons_append, List.cons_append]
  have clear := undisturbed.noListIn
  rw [Cursor.tokens_eq_left, left] at clear
  generalize Cursor.ofTokens (name :: start :: tokens ++ [stop]) firstId = c at left
  obtain ⟨current, leftNext⟩ := Cursor.next_of_left left (by simp)
  obtain ⟨-, leftThen⟩ := Cursor.next_of_left leftNext (by simp)
  have here : c.kind = .identifier := (kind_of_left_cons left).trans isName
  have isStart : c.next.kind = .openParen := (kind_of_left_cons leftNext).trans opens
  obtain ⟨found, between, run, atStop, alike⟩ := separated_elements (.inl rfl) alone listed closes
    (by simp) clear.tail.tail (Nat.le_succ _) leftThen
  have isStop : between.kind = .closeParen := (kind_of_left_cons atStop).trans closes
  obtain ⟨-, atEnd⟩ := Cursor.next_of_left atStop (by simp)
  have opened : opening .standard (exprUpTo .standard ((uncommented tokens).length + 3)) c =
      .ok (.symbol name.text name.span) c.next := by
    have noList : c.next.opensArguments = false := by
      rw [Cursor.opensArguments, isStart]
      rfl
    unfold opening
    rw [get_bind, here, ← current]
    refine bind_eq_ok.2 ⟨.identifier, c, ?_, ?_⟩
    · rw [← here]
      rfl
    · exact bind_eq_ok.2 ⟨_, _, run_identifierOf_plain here noList, rfl⟩
  have extended : extend .standard (exprUpTo .standard ((uncommented tokens).length + 3))
      (.symbol name.text name.span) c.next =
        .ok (.call (.symbol name.text name.span) found
          ⟨name.span.start, between.next.reached⟩) between.next := by
    refine bind_eq_ok.2 ⟨.openParen, c.next, ?_, run_call _ run isStop⟩
    rw [← isStart]
    rfl
  have goes : continues .standard .loosest c.next = true := by
    rw [continues, isStart]
    rfl
  refine ⟨found, ⟨name.span.start, between.next.reached⟩, between.next, ?_, kind_of_left_cons atEnd,
    alike⟩
  unfold expr
  rw [get_bind, left, List.length_cons, List.length_cons, List.length_append]
  exact bind_eq_ok.2 ⟨_, _, opened,
    run_growWhile_once goes extended (continues_of_ending atEnd)⟩

/-- **The elements of a list are what they are on their own**, in a call and in an array, unless a list
of type arguments opens behind one of their names without arguments. -/
theorem listed_elements (listed : Listed elements tokens) :
    (∀ name : Token, name.kind = .identifier → start.kind = .openParen → stop.kind = .closeParen →
      List.Forall₂ (ReadsAlone .closeParen) elements values →
      (Cursor.ofTokens (name :: start :: tokens ++ [stop]) firstId).Undisturbed values →
      ∃ found span c', expr .standard .loosest
          (.ofTokens (name :: start :: tokens ++ [stop]) firstId) =
            .ok (.call (.symbol name.text name.span) found span) c' ∧ c'.kind = .eof ∧
        found.map (Expr.relabel .erase) = values.map (Expr.relabel .erase)) ∧
    (start.kind = .openBracket → stop.kind = .closeBracket →
      List.Forall₂ (ReadsAlone .closeBracket) elements values →
      (Cursor.ofTokens (start :: tokens ++ [stop]) firstId).Undisturbed values →
      ∃ found span c', expr .standard .loosest (.ofTokens (start :: tokens ++ [stop]) firstId) =
          .ok (.arrayLiteral found span) c' ∧ c'.kind = .eof ∧
        found.map (Expr.relabel .erase) = values.map (Expr.relabel .erase)) :=
  ⟨fun _ isName opens closes alone undisturbed =>
    call_elements isName opens closes listed alone undisturbed,
    fun opens closes alone undisturbed => array_elements opens closes listed alone undisturbed⟩

end Lists

/-- A token that begins at an offset of the first line. -/
def tokenAt (offset : Nat) (kind : Kind) (text : String) : Token :=
  ⟨kind, text, ⟨⟨offset, 1, "shell"⟩, ⟨offset + text.length, 1, "shell"⟩⟩⟩

/-- The symbol of such a token. -/
def symbolAt (offset : Nat) (text : String) : Expr :=
  .symbol text (tokenAt offset .identifier text).span

/-- The tokens of `a < b`. -/
def compared : List Token :=
  [tokenAt 2 .identifier "a", tokenAt 4 .less "<", tokenAt 6 .identifier "b"]

/-- The comparison of `a` and `b`. -/
def comparison : Expr :=
  .operation .smaller (symbolAt 2 "a") (symbolAt 6 "b")

/-- In front of a bracket that closes, `a < b` is the comparison. -/
theorem readsAlone_compared {closing : Kind} (closes : Closing closing) :
    ReadsAlone closing compared comparison := by
  rcases closes with rfl | rfl
  · exact ⟨tokenAt 7 .closeParen ")", 0, _, rfl, rfl, rfl⟩
  · exact ⟨tokenAt 7 .closeBracket "]", 0, _, rfl, rfl, rfl⟩

/-- `f(a < b, c)` is a call with the comparison and `c`, and `[a < b, c]` is the array of both. -/
theorem listed_elements_compared :
    (∃ found span c', expr .standard .loosest (.ofTokens (tokenAt 0 .identifier "f" ::
        tokenAt 1 .openParen "(" :: (compared ++ tokenAt 7 .comma "," ::
          [tokenAt 9 .identifier "c"]) ++ [tokenAt 10 .closeParen ")"]) 0) =
            .ok (.call (symbolAt 0 "f") found span) c' ∧ c'.kind = .eof ∧
      found.map (Expr.relabel .erase) =
        [comparison, symbolAt 9 "c"].map (Expr.relabel .erase)) ∧
    ∃ found span c', expr .standard .loosest (.ofTokens (tokenAt 1 .openBracket "[" ::
        (compared ++ tokenAt 7 .comma "," :: [tokenAt 9 .identifier "c"]) ++
          [tokenAt 10 .closeBracket "]"]) 0) = .ok (.arrayLiteral found span) c' ∧
      c'.kind = .eof ∧
      found.map (Expr.relabel .erase) =
        [comparison, symbolAt 9 "c"].map (Expr.relabel .erase) := by
  have listed : Listed [compared, [tokenAt 9 .identifier "c"]]
      (compared ++ tokenAt 7 .comma "," :: [tokenAt 9 .identifier "c"]) := .more rfl .last
  constructor
  · refine (listed_elements listed).1 (tokenAt 0 .identifier "f") rfl rfl rfl ?_ ?_
    · exact .cons (readsAlone_compared (.inl rfl))
        (.cons ⟨tokenAt 10 .closeParen ")", 0, _, rfl, rfl, rfl⟩ .nil)
    · decide +kernel
  · refine (listed_elements listed).2 rfl rfl ?_ ?_
    · exact .cons (readsAlone_compared (.inr rfl))
        (.cons ⟨tokenAt 10 .closeBracket "]", 0, _, rfl, rfl, rfl⟩ .nil)
    · decide +kernel

/-- The tokens of `c > (d)`. -/
def comparedToo : List Token :=
  [tokenAt 9 .identifier "c", tokenAt 11 .greater ">", tokenAt 13 .openParen "(",
    tokenAt 14 .identifier "d", tokenAt 15 .closeParen ")"]

/-- The comparison of `c` and `d`. -/
def comparisonToo : Expr :=
  .operation .greater (symbolAt 9 "c") (symbolAt 14 "d")

/-- **Two comparisons that make one argument**: `a < b` and `c > (d)` are each read on their own, and
`f(a < b, c > (d))` is no call with both. -/
theorem listed_elements_misread :
    List.Forall₂ (ReadsAlone .closeParen) [compared, comparedToo] [comparison, comparisonToo] ∧
    Listed [compared, comparedToo] (compared ++ tokenAt 7 .comma "," :: comparedToo) ∧
    ¬ ∃ found span c', expr .standard .loosest (.ofTokens (tokenAt 0 .identifier "f" ::
        tokenAt 1 .openParen "(" :: (compared ++ tokenAt 7 .comma "," :: comparedToo) ++
          [tokenAt 16 .closeParen ")"]) 0) = .ok (.call (symbolAt 0 "f") found span) c' ∧
      found.map (Expr.relabel .erase) =
        [comparison, comparisonToo].map (Expr.relabel .erase) := by
  refine ⟨?_, .more rfl .last, ?_⟩
  · exact .cons (readsAlone_compared (.inl rfl))
      (.cons ⟨tokenAt 16 .closeParen ")", 0, _, rfl, rfl, rfl⟩ .nil)
  · rintro ⟨found, span, c', run, alike⟩
    have two : found.length = 2 := by
      have lengths := congrArg List.length alike
      rwa [List.length_map, List.length_map] at lengths
    obtain ⟨only, one⟩ : ∃ only, found = [only] := by
      cases run
      exact ⟨_, rfl⟩
    rw [one] at two
    cases two

end Parse

end FrontEnd

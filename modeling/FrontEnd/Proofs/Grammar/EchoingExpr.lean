import FrontEnd.Proofs.Grammar.EchoingName
import FrontEnd.Proofs.Grammar.YieldingExpr

/-!
# Expressions read again in another place

An expression in front of a token that continues none is echoed in front of another such token
(`Parse.echoes_exprUpTo`): the other run ends in the same place, and in between it meets the same
tokens. It is echoed in front of an operator too, if it was parsed at a precedence that the operator
does not bind tighter than. At a looser precedence it is not, and the parts of an expression that are
parsed at a looser precedence are those between brackets: a token of the expression stands behind each
of them, which is the room that they need (`Parting.room`).

A value that grows keeps the names it has, so that what is clear of the whole expression is clear of its
parts.
-/

namespace FrontEnd

/-- An expression is compared without its numbers and positions. -/
def Aspect.expr : Aspect Expr :=
  ⟨Expr, Expr.relabel .erase, Expr.bare⟩

/-- A field is compared by its name and its value. -/
def Aspect.field : Aspect (String × Expr) :=
  ⟨String × Expr, Prod.map id (Expr.relabel .erase), fun field => field.2.bare⟩

/-- **The room that is needed** behind an expression parsed at a precedence: a token where the mark
would continue the expression. -/
def Parting.room (p : Parting) (g : Grammar) (precedence : Precedence) : Nat :=
  if precedence.rank < (g.binding p.mark.kind).rank ∧ (g.follow p.mark.kind).isSome then 1 else 0

theorem Parting.room_le_one (p : Parting) (g : Grammar) (precedence : Precedence) :
    p.room g precedence ≤ 1 := by
  unfold room
  split <;> decide

/-- A tighter precedence needs no more room. -/
theorem Parting.room_le (p : Parting) (g : Grammar) {loose tight : Precedence}
    (le : loose.rank ≤ tight.rank) : p.room g tight ≤ p.room g loose := by
  unfold room
  split
  next above =>
    exact Nat.le_of_eq (if_pos ⟨Nat.lt_of_le_of_lt le above.1, above.2⟩).symm
  next => exact Nat.zero_le _

namespace Parse

open Token Lookahead

variable {p : Parting} {g : Grammar} {held : List Span} {c : Cursor}

/-! ## What begins an expression -/

theorem echoes_literal {α : Type} {read : String → Option α} {build : α → Span → Expr}
    (shut : c.kind ≠ .openBracket) :
    Echoes p [] 1 0 .expr (literal read build) (literal read build) c := by
  refine .advance ?_ (.inl shut)
  cases read c.current.text with
  | some value => exact .pure (List.nil_subset _) rfl
  | none => exact echoes_fail

theorem echoes_textLiteral {build : String → Span → Expr} (shut : c.kind ≠ .openBracket) :
    Echoes p [] 1 0 .expr (textLiteral build) (textLiteral build) c :=
  .advance (.pure (List.nil_subset _) rfl) (.inl shut)

theorem echoes_primary (c : Cursor) : Echoes p [] 1 0 .expr primary primary c := by
  refine .onKind ?_ (Nat.le_refl _)
  split
  next here => exact echoes_literal (by rw [here]; nofun)
  next here => exact echoes_literal (by rw [here]; nofun)
  next here => exact .advance (.pure (List.nil_subset _) rfl) (.inl (by rw [here]; nofun))
  next here => exact .advance (.pure (List.nil_subset _) rfl) (.inl (by rw [here]; nofun))
  next here => exact echoes_textLiteral (by rw [here]; nofun)
  next here => exact echoes_textLiteral (by rw [here]; nofun)
  next =>
    refine .bind (echoes_identifier c) (fun found otherFound c' alike _ => ?_) (Nat.le_refl _)
    cases found with
    | plain text span =>
      cases otherFound with
      | plain otherText otherSpan =>
        obtain ⟨rfl, -⟩ : otherText = text ∧ _ := Identifier.plain.inj alike
        exact .pure (List.Subset.refl _) rfl
      | applied => cases alike
    | applied segment =>
      cases otherFound with
      | plain => cases alike
      | applied other =>
        have same : other.relabel .erase = segment.relabel .erase := Identifier.applied.inj alike
        refine .pure ?_ (congrArg Expr.name (Name.erase_eq_iff.2 ?_))
        · rw [show Aspect.expr.bare (.name ⟨[segment], segment.span⟩) = _ from
            List.flatMap_singleton ..]
          exact List.Subset.refl _
        · rw [List.map_singleton, List.map_singleton, same]
  next => exact echoes_unexpected

section Inner

variable {inner other : Precedence → Parse Expr}

/-- Operations on operands that are alike are alike. -/
theorem alike_operation {operator : Operator} {left right otherLeft otherRight : Expr}
    (lefts : otherLeft.relabel .erase = left.relabel .erase)
    (rights : otherRight.relabel .erase = right.relabel .erase) :
    Aspect.expr.seen (.operation operator otherLeft otherRight) =
      Aspect.expr.seen (.operation operator left right) := by
  change Expr.relabel .erase _ = Expr.relabel .erase _
  rw [Expr.relabel_operation, Expr.relabel_operation, lefts, rights]

variable (each : ∀ precedence c,
  Echoes p [] 1 (p.room g precedence) .expr (inner precedence) (other precedence) c)

include each

theorem echoes_sign (signs : p.room g .unary = 0) (c : Cursor) :
    Echoes p [] 2 0 .expr (sign inner) (sign other) c := by
  refine .advance ?_ (.inr (Nat.le_refl _))
  refine .bind (each _ _) (fun operand otherOperand c' alike _ => ?_) (Nat.le_of_eq signs)
  have same : otherOperand.relabel .erase = operand.relabel .erase := alike
  have keeps (operator : Operator) (value : Int) (span : Span) :
      operand.bare ⊆ (Expr.operation operator operand (.int value span)).bare := by
    rw [Expr.bare_operation]
    exact List.subset_append_left ..
  split
  · refine .pure (List.Subset.refl _) ?_
    change Expr.negate _ _ = Expr.negate _ _
    rw [same]
    rfl
  · exact .pure (keeps .multiply _ _) (alike_operation same rfl)
  · exact .pure (keeps .add _ _) (alike_operation same rfl)
  · exact .pure (keeps .subtract _ _) (alike_operation same rfl)
  · exact echoes_fail

theorem echoes_group (c : Cursor) : Echoes p [] 3 0 .expr (group inner) (group other) c := by
  refine .advance ?_ (.inr (by decide))
  refine .bind (each _ _) (fun value otherValue c' alike _ => ?_) (p.room_le_one g _)
  exact .expect (fun _ => .pure (List.Subset.refl _) alike) (.inl nofun)

/-- A field is echoed in front of what shows that it has no value. -/
theorem echoes_fieldValue (c : Cursor) :
    Echoes p [] 2 1 .field (fieldValue inner) (fieldValue other) c := by
  refine .expect (fun _ => .expect (fun _ => ?_) (.inl nofun)) (.inl nofun)
  refine .onKind ?_ (Nat.le_refl _)
  split
  · exact .pure (List.nil_subset _) rfl
  · exact .pure (List.nil_subset _) rfl
  · suffices valued : Echoes p [] 2 1 .field _ _ _ from valued.few
    refine .expect (fun _ => ?_) (.inl nofun)
    refine .bind (each _ _) (fun value otherValue c' alike _ => ?_) (p.room_le_one g _)
    exact .pure (List.Subset.refl _) (congrArg (Prod.mk _) alike)

theorem echoes_structLiteral (c : Cursor) :
    Echoes p [] 2 0 .expr (structLiteral inner) (structLiteral other) c := by
  refine .still echoes_here (fun _ _ c' => ?_) (Nat.zero_le _)
  refine .skip (echoes_consume nofun) (fun isMutable c'' => ?_) (by decide)
  refine .expect (fun _ => ?_) (.inl nofun)
  refine .bind (echoes_separated (fun c => (echoes_fieldValue each c).few) _)
    (fun fields otherFields c' alike _ => ?_) (Nat.le_refl _)
  refine .expect (fun _ => .still (echoes_spanFrom _ _) (fun _ _ _ => .pure ?_ ?_) (Nat.le_refl _))
    (.inl nofun)
  · change fields.flatMap (fun field => field.2.bare) ⊆ Expr.bare _
    rw [Expr.bare, Expr.bareOfFields_eq]
    exact List.Subset.refl _
  · have same : otherFields.map (Prod.map id (Expr.relabel .erase)) =
        fields.map (Prod.map id (Expr.relabel .erase)) := alike
    change Expr.structLiteral _ _ _ = Expr.structLiteral _ _ _
    rw [relabelFields_eq, relabelFields_eq, same]
    rfl

theorem echoes_elements {closing : Kind} (c : Cursor) :
    Echoes p [] 0 1 Aspect.expr.list (separated closing (inner .loosest))
      (separated closing (other .loosest)) c :=
  echoes_separated (fun c => (each _ c).weaken (Nat.zero_le _) (p.room_le_one g _)
    (List.Subset.refl _)) c

theorem echoes_arrayLiteral (c : Cursor) :
    Echoes p [] 2 0 .expr (arrayLiteral inner) (arrayLiteral other) c := by
  refine .still echoes_here (fun _ _ c' => ?_) (Nat.zero_le _)
  refine .expect (fun _ => ?_) (.inr (Nat.le_refl _))
  refine .bind (echoes_elements each _) (fun values otherValues c' alike _ => ?_) (Nat.le_refl _)
  refine .expect (fun _ => .still (echoes_spanFrom _ _) (fun _ _ _ => .pure ?_ ?_) (Nat.le_refl _))
    (.inl nofun)
  · change values.flatMap Expr.bare ⊆ Expr.bare _
    rw [Expr.bare, Expr.bareOfList_eq]
    exact List.Subset.refl _
  · have same : otherValues.map (Expr.relabel .erase) = values.map (Expr.relabel .erase) := alike
    change Expr.arrayLiteral _ _ = Expr.arrayLiteral _ _
    rw [relabelExprs_eq, relabelExprs_eq, same]
    rfl

theorem echoes_lead (signs : p.room g .unary = 0) (form : Lead) (c : Cursor) :
    Echoes p [] 1 0 .expr (lead inner form) (lead other form) c := by
  cases form with
  | primary => exact echoes_primary c
  | sign => exact (echoes_sign each signs c).one
  | group => exact (echoes_group each c).one
  | structLiteral => exact (echoes_structLiteral each c).one
  | arrayLiteral => exact (echoes_arrayLiteral each c).one

theorem echoes_opening (signs : p.room g .unary = 0) (c : Cursor) :
    Echoes p [] 1 0 .expr (opening g inner) (opening g other) c := by
  refine .look ?_ fun e d beside long _ => ?_
  · split
    · exact echoes_lead each signs _ c
    · exact echoes_fail
  · simp only [Cursor.kind, Cursor.here, beside.current_eq (List.length_pos_iff.1 long)]

/-! ## What continues an expression -/

variable {left otherLeft : Expr} (alike : otherLeft.relabel .erase = left.relabel .erase)

include alike

theorem echoes_binary (precedence : Precedence) (c : Cursor) :
    Echoes p left.bare 2 (p.room g precedence) .expr (binary inner left precedence)
      (binary other otherLeft precedence) c := by
  refine .advance ?_ (.inr (Nat.le_refl _))
  split
  · exact echoes_fail
  · refine .bind (each _ _) (fun right otherRight c' rights _ => ?_) (Nat.le_add_left ..)
    refine .pure ?_ (alike_operation alike rights)
    change left.bare ++ right.bare ⊆ Expr.bare _
    rw [Expr.bare_operation]
    exact List.Subset.refl _

theorem echoes_call (c : Cursor) :
    Echoes p left.bare 2 0 .expr (call inner left) (call other otherLeft) c := by
  refine .advance ?_ (.inr (Nat.le_refl _))
  refine .bind (echoes_elements each _) (fun arguments otherArguments c' alikeToo _ => ?_)
    (Nat.le_refl _)
  refine .expect (fun _ => .still (echoes_spanFrom _ _) (fun _ _ _ => .pure ?_ ?_) (Nat.le_refl _))
    (.inl nofun)
  · change left.bare ++ arguments.flatMap Expr.bare ⊆ Expr.bare _
    rw [Expr.bare, Expr.bareOfList_eq]
    exact List.Subset.refl _
  · have same : otherArguments.map (Expr.relabel .erase) = arguments.map (Expr.relabel .erase) :=
      alikeToo
    change Expr.call _ _ _ = Expr.call _ _ _
    rw [alike, relabelExprs_eq, relabelExprs_eq, same]
    rfl

theorem echoes_index (c : Cursor) :
    Echoes p left.bare 3 0 .expr (index inner left) (index other otherLeft) c := by
  refine .advance ?_ (.inr (by decide))
  refine .bind (each _ _) (fun position otherPosition c' alikeToo _ => ?_) (p.room_le_one g _)
  have same : otherPosition.relabel .erase = position.relabel .erase := alikeToo
  refine .expect (fun _ => .still (echoes_spanFrom _ _) (fun _ _ _ => .pure ?_ ?_) (Nat.le_refl _))
    (.inl nofun)
  · exact List.Subset.refl _
  · change Expr.index _ _ _ = Expr.index _ _ _
    rw [alike, same]
    rfl

omit each in
/-- A point is echoed by a point behind an expression of the same form. -/
theorem echoes_member (c : Cursor) :
    Echoes p left.bare 2 0 .expr (member left) (member otherLeft) c := by
  cases isName : left.isName with
  | false =>
    have otherIsName : otherLeft.isName = false := by
      rw [← isName_relabel .erase, alike, isName_relabel, isName]
    rw [member_eq isName, member_eq otherIsName]
    refine .advance (.expect (fun _ => ?_) (.inl nofun)) (.inr (Nat.le_refl _))
    refine .still (echoes_spanFrom _ _) (fun _ _ _ => .pure (List.Subset.refl _) ?_) (Nat.le_refl _)
    change Expr.member _ _ _ = Expr.member _ _ _
    rw [alike]
    rfl
  | true =>
    cases left with
    | symbol text span =>
      cases otherLeft with
      | symbol otherText otherSpan =>
        obtain ⟨rfl, -⟩ := Expr.symbol.inj alike
        refine .advance ?_ (.inr (Nat.le_refl _))
        refine .still echoes_freshId (fun id otherId c' => ?_) (Nat.zero_le _)
        refine .bind (echoes_segment c') (fun second otherSecond c'' alikeToo _ => ?_) (Nat.le_refl _)
        refine .still (echoes_spanFrom _ _) (fun _ _ _ => .pure ?_ ?_) (Nat.le_refl _)
        · change [span] ++ second.bare ⊆ Name.bare _
          rw [Name.bare, List.flatMap_cons, List.flatMap_singleton, Segment.bare_plain]
          exact List.Subset.refl _
        · have seconds : otherSecond.relabel .erase = second.relabel .erase := alikeToo
          refine congrArg Expr.name (Name.erase_eq_iff.2 ?_)
          simp only [List.map_cons, seconds]
          rfl
      | _ => cases alike
    | name name =>
      cases otherLeft with
      | name otherName =>
        have names := Name.erase_eq_iff.1 (Expr.name.inj alike)
        refine .advance ?_ (.inr (Nat.le_refl _))
        refine .bind (echoes_segment _) (fun next otherNext c' alikeToo _ => ?_) (Nat.le_refl _)
        refine .still (echoes_spanFrom _ _) (fun _ _ _ => .pure ?_ ?_) (Nat.le_refl _)
        · change name.segments.flatMap Segment.bare ++ next.bare ⊆
            (name.segments ++ [next]).flatMap Segment.bare
          rw [List.flatMap_append, List.flatMap_singleton]
          exact List.Subset.refl _
        · have nexts : otherNext.relabel .erase = next.relabel .erase := alikeToo
          refine congrArg Expr.name (Name.erase_eq_iff.2 ?_)
          rw [List.map_append, List.map_append, names, List.map_singleton, List.map_singleton, nexts]
      | _ => cases alike
    | _ => cases isName

theorem echoes_follow (form : Follow) (precedence : Precedence) (c : Cursor) :
    Echoes p left.bare 1 (p.room g precedence) .expr (follow inner form left precedence)
      (follow other form otherLeft precedence) c := by
  have closed {action otherAction : Parse Expr}
      (echoed : Echoes p left.bare 1 0 .expr action otherAction c) :
      Echoes p left.bare 1 (p.room g precedence) .expr action otherAction c :=
    echoed.weaken (Nat.le_refl _) (Nat.zero_le _) (List.Subset.refl _)
  cases form with
  | binary => exact (echoes_binary each alike precedence c).one
  | call => exact closed (echoes_call each alike c).one
  | index => exact closed (echoes_index each alike c).one
  | member => exact closed (echoes_member alike c).one

/-- What continues an expression stands among the tokens, so it does the same in both places. -/
theorem echoes_extend (ends : g.follow p.closing.kind = none) {precedence : Precedence} {c : Cursor}
    (goesOn : continues g precedence c = true) :
    Echoes p left.bare 0 (p.room g precedence) .expr (extend g inner left)
      (extend g other otherLeft) c := by
  rw [continues, Bool.and_eq_true, Bool.and_eq_true, decide_eq_true_eq] at goesOn
  obtain ⟨⟨-, tighter⟩, follows⟩ := goesOn
  refine .byKind ?_ fun e d beside _ => ?_
  · split
    next form _ =>
      exact (echoes_follow each alike form _ c).weaken (Nat.zero_le _)
        (p.room_le g (Nat.le_of_lt tighter)) (List.Subset.refl _)
    next => exact .pure (List.Subset.refl _) alike
  · cases e with
    | nil =>
      rw [beside.kinds.1, ends] at follows
      cases follows
    | cons => rw [beside.kind_eq (List.cons_ne_nil _ _)]

end Inner

/-! ## Expressions -/

/-- An expression goes on alike in both places: what follows the tokens continues none where there is
no room left, and a `[` is not the last of them. -/
theorem continues_eq_of_beside (ends : g.follow p.closing.kind = none) (precedence : Precedence)
    {e : List Token} {c d : Cursor} (beside : p.Beside e c d)
    (roomy : p.room g precedence ≤ e.length) (shut : Shut e) :
    continues g precedence d = continues g precedence c := by
  cases e with
  | nil =>
    obtain ⟨here, there⟩ := beside.kinds
    have loose : ¬ (precedence.rank < (g.binding p.mark.kind).rank ∧
        (g.follow p.mark.kind).isSome) := by
      intro above
      rw [Parting.room, if_pos above] at roomy
      cases roomy
    have stops : continues g precedence d = false := by
      rw [Bool.eq_false_iff]
      intro goesOn
      rw [continues, Bool.and_eq_true, Bool.and_eq_true, decide_eq_true_eq, there] at goesOn
      exact loose ⟨goesOn.1.2, goesOn.2⟩
    rw [stops, continues, here, ends, Option.isSome_none, Bool.and_false]
  | cons token rest =>
    have same : d.kind = c.kind := beside.kind_eq (List.cons_ne_nil _ _)
    cases rest with
    | nil =>
      have current : c.current = token := (List.cons.inj beside.here).1
      have here : (c.kind == .openBracket) = false := by
        rw [Cursor.kind, current]
        exact beq_eq_false_iff_ne.2 (shut token rfl)
      rw [continues, continues, same, here, Bool.false_and, Bool.false_and]
    | cons next rest =>
      have peeks : d.peek 1 = c.peek 1 := by
        rw [Cursor.peek, Cursor.peek, beside.here, beside.there]
        rfl
      rw [continues, continues, same, peeks]

/-- **An expression is echoed** where it may nest as deep, if no sign is left open to the mark. -/
theorem echoes_exprUpTo (ends : g.follow p.closing.kind = none) (signs : p.room g .unary = 0)
    {n m : Nat} (le : n ≤ m) (precedence : Precedence) (c : Cursor) :
    Echoes p [] 1 (p.room g precedence) .expr (exprUpTo g n precedence) (exprUpTo g m precedence)
      c := by
  induction n generalizing m precedence c with
  | zero => exact .halt
  | succ n ih =>
    cases m with
    | zero => cases le
    | succ m =>
      have inner := ih (Nat.le_of_succ_le_succ le)
      refine .bind (echoes_opening inner signs c) (fun first otherFirst c' alike _ => ?_)
        (Nat.zero_le _)
      refine echoes_growWhile (fun e c d beside roomy shut => ?_)
        (fun value otherValue c goesOn alike => ?_) alike c'
      · exact continues_eq_of_beside ends precedence beside roomy shut
      · exact echoes_extend inner alike ends goesOn

/-- **An expression is read again** behind which another token stands that does not continue it, if no
list of type arguments goes past either token from one of its names. -/
theorem exprUpTo_again {closing mark : Token} {tokens rest more : List Token} {n m : Nat}
    {precedence : Precedence} {value : Expr} {c c' d : Cursor}
    (run : exprUpTo g n precedence c = .ok value c') (left : c.left = tokens ++ closing :: rest)
    (ended : c'.left = closing :: rest) (closes : inList closing.kind = false)
    (ends : g.follow closing.kind = none) (undotted : mark.kind ≠ .dot)
    (clear : inList mark.kind = true → NoListIn value.bare tokens (mark :: more))
    (loose : (g.binding mark.kind).rank ≤ precedence.rank)
    (loosely : (g.binding mark.kind).rank ≤ Precedence.unary.rank)
    (some : rest ≠ []) (longer : rest.length ≤ more.length) (deep : n ≤ m)
    (there : d.left = tokens ++ mark :: more) :
    ∃ found d', exprUpTo g m precedence d = .ok found d' ∧ d'.left = mark :: more ∧
      found.relabel .erase = value.relabel .erase := by
  let p : Parting := { closing, rest, mark, more, closes, marks := undotted, some, longer }
  have roomless {tight : Precedence} (le : (g.binding mark.kind).rank ≤ tight.rank) :
      p.room g tight = 0 :=
    if_neg fun above => Nat.not_lt.2 le above.1
  obtain ⟨front, echoed⟩ := echoes_exprUpTo (p := p) ends (roomless loosely) deep precedence c run
  obtain rfl : front = tokens := by
    refine List.append_cancel_right (echoed.left.symm.trans (left.trans ?_))
    rw [ended]
  have clearAll : p.Clear value.bare (front ++ []) := by
    rw [List.append_nil]
    exact clear
  exact @echoed.echo [] d ended (Nat.le_of_eq (roomless loose)) .nil clearAll
    (by rw [List.append_nil]; exact there)

end Parse

end FrontEnd

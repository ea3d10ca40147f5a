import FrontEnd.Proofs.Grammar.Echoing

/-!
# Runs are confined to the tokens that they take

A declaration is parsed in the midst of a file. What stands before it has been read, and what stands
behind it is not asked for: the last token of a declaration is a semicolon or a closing brace,
behind which neither the declaration nor a list of type arguments goes on. So the run can be
repeated on the tokens of the declaration alone, with the end behind them (`Parse.Confined`). The
same holds of statements and of all that is taken on the way.

The second run stands beside the first (`Excerpt.Beside`): it has the same tokens in front of it up
to where the excerpt ends, and behind it those that were taken since the excerpt began. Its budget
may be another; so it is only said that it halts in no way but for want of budget, which no action
does.

An action that ends where the excerpt does has to see that it ends. Every other needs a token of the
excerpt behind it, which is the slack of the judgement.

This module has the rules, the actions for single tokens and for repetition, and names.
-/

namespace FrontEnd

open Token Lookahead

/-- Whether a declaration or a statement may end with a token of a kind. -/
def Token.Kind.isFinal : Kind → Bool
  | .semicolon | .closeCurly => true
  | _ => false

theorem Token.Kind.isFinal_iff {k : Kind} :
    k.isFinal = true ↔ k = .semicolon ∨ k = .closeCurly := by
  cases k <;> simp [isFinal]

/-- A list of type arguments has no token that a declaration may end with. -/
theorem Lookahead.inList_of_isFinal {k : Kind} (final : k.isFinal = true) : inList k = false := by
  rcases Kind.isFinal_iff.1 final with rfl | rfl
  · rfl
  · rfl

/-- **An excerpt of a sequence of tokens**: what stands before it, the nearest first, what stands
behind it up to the end of the sequence, and the token of the end that stands there instead. -/
structure Excerpt where
  before : List Token
  rest : List Token
  ending : Token
  more : rest ≠ []
  ends : ∀ last ∈ rest.getLast?, last.kind = .eof
  ended : ending.kind = .eof

namespace Excerpt

variable {x : Excerpt} {front tokens : List Token} {token : Token} {c d : Cursor}

/-- **A cursor in an excerpt stands beside one in the whole sequence**: both are in front of the
same tokens of the excerpt. -/
structure Beside (x : Excerpt) (tokens : List Token) (c d : Cursor) : Prop where
  here : c.left = tokens ++ x.rest
  there : d.left = tokens ++ [x.ending]
  behind : c.behind = d.behind ++ x.before
  nextId : d.nextId = c.nextId
  final : ∀ last ∈ tokens.getLast?, last.kind.isFinal = true

namespace Beside

theorem current_eq (beside : x.Beside tokens c d) (some : tokens ≠ []) :
    d.current = c.current := by
  obtain ⟨first, rest, rfl⟩ := List.exists_cons_of_ne_nil some
  have here : c.current = first := (List.cons.inj beside.here).1
  have there : d.current = first := (List.cons.inj beside.there).1
  rw [here, there]

theorem kind_eq (beside : x.Beside tokens c d) (some : tokens ≠ []) : d.kind = c.kind := by
  rw [Cursor.kind, Cursor.kind, beside.current_eq some]

/-- Where the excerpt ends its cursor stands on the end. -/
theorem kind_eof (beside : x.Beside [] c d) : d.kind = .eof := by
  have there : d.current = x.ending := (List.cons.inj beside.there).1
  rw [Cursor.kind, there, x.ended]

theorem peek_eq {n : Nat} (beside : x.Beside tokens c d) (inside : n < tokens.length) :
    d.peek n = c.peek n := by
  rw [Cursor.peek, Cursor.peek, beside.here, beside.there, List.getElem?_append_left inside,
    List.getElem?_append_left inside]

/-- What was reached is the same once a token of the excerpt was taken. -/
theorem reached_eq (beside : x.Beside tokens c d) (begun : 0 < d.behind.length) :
    d.reached = c.reached := by
  obtain ⟨last, others, split⟩ := List.exists_cons_of_length_pos begun
  rw [Cursor.reached, Cursor.reached, beside.behind, split]
  rfl

/-- **A step beside a step.** -/
theorem next (beside : x.Beside (token :: tokens) c d) :
    x.Beside tokens c.next d.next ∧ d.next.behind.length = d.behind.length + 1 := by
  obtain ⟨behind, current, ahead, nextId, file⟩ := c
  obtain ⟨behindThere, currentThere, aheadThere, nextIdThere, fileThere⟩ := d
  obtain ⟨-, isAhead⟩ : _ ∧ ahead = tokens ++ x.rest := List.cons.inj beside.here
  obtain ⟨-, isAheadThere⟩ : _ ∧ aheadThere = tokens ++ [x.ending] := List.cons.inj beside.there
  have same : currentThere = current := beside.current_eq (List.cons_ne_nil _ _)
  have some : ahead ≠ [] := by
    rw [isAhead]
    exact List.append_ne_nil_of_right_ne_nil _ x.more
  have someThere : aheadThere ≠ [] := by
    rw [isAheadThere]
    exact List.append_ne_nil_of_right_ne_nil _ (List.cons_ne_nil _ _)
  obtain ⟨first, rest, rfl⟩ := List.exists_cons_of_ne_nil some
  obtain ⟨firstThere, restThere, rfl⟩ := List.exists_cons_of_ne_nil someThere
  have passed : current :: behind = currentThere :: behindThere ++ x.before := by
    rw [same, List.cons_append]
    exact congrArg (current :: ·) beside.behind
  refine ⟨⟨isAhead, isAheadThere, passed, beside.nextId, fun last mem => ?_⟩, rfl⟩
  refine beside.final last ?_
  cases tokens with
  | nil => cases mem
  | cons => exact mem

/-- A token that no declaration ends with has another of the excerpt behind it. -/
theorem succ_lt {n : Nat} (beside : x.Beside tokens c d) (inside : n < tokens.length)
    (notFinal : (c.peek n).isFinal = false) : n + 1 < tokens.length := by
  by_contra last
  obtain rfl : n = tokens.length - 1 := by omega
  have isLast : tokens.getLast? = some tokens[tokens.length - 1] := by
    rw [List.getLast?_eq_getElem?, List.getElem?_eq_getElem inside]
  have final := beside.final _ isLast
  rw [Cursor.peek, beside.here, List.getElem?_append_left inside,
    List.getElem?_eq_getElem inside] at notFinal
  exact Bool.false_ne_true (notFinal.symm.trans final)

/-- **A list of type arguments opens in both places or in neither**: it does not go past the token
that the excerpt ends with. -/
theorem opensArguments_eq (beside : x.Beside tokens c d) (some : tokens ≠ []) :
    d.opensArguments = c.opensArguments := by
  obtain ⟨front, last, rfl⟩ : ∃ front last, tokens = front ++ [last] :=
    ⟨_, _, (List.dropLast_concat_getLast some).symm⟩
  have other : inList last.kind = false :=
    inList_of_isFinal (beside.final last List.getLast?_concat)
  rw [Cursor.opensArguments_eq, Cursor.opensArguments_eq, beside.here, beside.there]
  rw [List.append_assoc, List.append_assoc, List.map_append, @List.map_append _ _ _ front,
    Bool.eq_iff_iff]
  constructor
  · exact fun found => isSome_afterList?_append other found _
  · exact fun found => isSome_afterList?_append other found _

end Beside

end Excerpt

namespace Parse

variable {α β : Type}

/-- **What is known of a run** that took the tokens `front`: it took at least as many as it should,
and the run of another action beside it gives the same value and takes the same tokens, or is out of
budget. -/
structure Confinement (x : Excerpt) (begun least slack : Nat) (other : Parse α) (c : Cursor)
    (value : α) (c' : Cursor) (front : List Token) : Prop where
  left : c.left = front ++ c'.left
  least : ∀ ⦃e⦄, c'.left = e ++ x.rest → slack ≤ e.length → least ≤ front.length
  again : ∀ ⦃e d⦄, c'.left = e ++ x.rest → slack ≤ e.length → x.Beside (front ++ e) c d →
    begun ≤ d.behind.length →
    (∃ d', other d = .ok value d' ∧ x.Beside e c' d' ∧
      d'.behind.length = d.behind.length + front.length) ∨ ∃ d', other d = .error .exhausted d'

/-- **An action is confined to the tokens that it takes**: beside a run that ends in the excerpt,
with at least `slack` of its tokens left, another action gives the same, if at least `begun` tokens
of the excerpt were taken before. The action takes at least `least` tokens. -/
def Confined (x : Excerpt) (begun least slack : Nat) (action other : Parse α) : Prop :=
  ∀ ⦃c value c'⦄, action c = .ok value c' →
    ∃ front, Confinement x begun least slack other c value c' front

namespace Confined

variable {x : Excerpt} {begun further least fewer slack room total : Nat} {action other : Parse α}

theorem pure {value : α} :
    Confined x begun 0 slack (Pure.pure value : Parse α) (Pure.pure value) := by
  intro c given c' run
  obtain ⟨rfl, rfl⟩ := pure_eq_ok.1 run
  exact ⟨[], rfl, fun _ _ _ => Nat.zero_le _, fun _ d _ _ beside _ => .inl ⟨d, rfl, beside, rfl⟩⟩

theorem halt {halt : Halt} : Confined x begun least slack (throw halt) other := by
  intro c value c' run
  exact absurd run throw_ne_ok

/-- An action that takes no fewer tokens, later in the excerpt and with more room behind it. -/
theorem weaken (h : Confined x begun least slack action other) (le : begun ≤ further)
    (few : fewer ≤ least) (roomy : slack ≤ room) : Confined x further fewer room action other := by
  intro c value c' run
  obtain ⟨front, confined⟩ := h run
  refine ⟨front, confined.left, fun e ahead enough => ?_, fun e d ahead enough beside taken => ?_⟩
  · exact Nat.le_trans few (confined.least ahead (Nat.le_trans roomy enough))
  · exact confined.again ahead (Nat.le_trans roomy enough) beside (Nat.le_trans le taken)

theorem later (h : Confined x begun least slack action other) :
    Confined x (begun + total) least slack action other :=
  h.weaken (Nat.le_add_right ..) (Nat.le_refl _) (Nat.le_refl _)

theorem few (h : Confined x begun least slack action other) :
    Confined x begun 0 slack action other :=
  h.weaken (Nat.le_refl _) (Nat.zero_le _) (Nat.le_refl _)

theorem one (h : Confined x begun (least + 1) slack action other) :
    Confined x begun 1 slack action other :=
  h.weaken (Nat.le_refl _) (Nat.le_add_left ..) (Nat.le_refl _)

/-- An action without budget gives nothing else. -/
theorem spent (h : Confined x begun least slack action other) :
    Confined x begun least slack action exhausted := by
  intro c value c' run
  obtain ⟨front, confined⟩ := h run
  exact ⟨front, confined.left, confined.least, fun _ d _ _ _ _ => .inr ⟨d, rfl⟩⟩

/-- **An action behind another.** The tokens that the second takes are room for the first. -/
theorem bind {next after : α → Parse β} (here : Confined x begun least room action other)
    (behind : ∀ value, Confined x (begun + least) (total - least) slack (next value) (after value))
    (enough : room ≤ total - least + slack) :
    Confined x begun total slack (action >>= next) (other >>= after) := by
  intro c given c' run
  obtain ⟨value, between, firstRun, restRun⟩ := bind_eq_ok.1 run
  obtain ⟨front, one⟩ := here firstRun
  obtain ⟨more, two⟩ := behind value restRun
  have reach {e : List Token} (ahead : c'.left = e ++ x.rest) (roomy : slack ≤ e.length) :
      between.left = (more ++ e) ++ x.rest ∧ room ≤ (more ++ e).length := by
    have taken := two.least ahead roomy
    rw [two.left, ahead, List.append_assoc, List.length_append]
    exact ⟨rfl, by omega⟩
  refine ⟨front ++ more, ?_, fun e ahead roomy => ?_, fun e d ahead roomy beside taken => ?_⟩
  · rw [one.left, two.left, List.append_assoc]
  · have takenFirst := one.least (reach ahead roomy).1 (reach ahead roomy).2
    have takenThen := two.least ahead roomy
    rw [List.length_append]
    omega
  · have takenFirst := one.least (reach ahead roomy).1 (reach ahead roomy).2
    rw [List.append_assoc] at beside
    rcases one.again (reach ahead roomy).1 (reach ahead roomy).2 beside taken with
      ⟨d₁, firstAgain, besideThen, moved⟩ | ⟨d', spent⟩
    · rcases two.again ahead roomy besideThen (by omega) with
        ⟨d', restAgain, besideLast, movedOn⟩ | ⟨d', spent⟩
      · refine .inl ⟨d', bind_eq_ok.2 ⟨value, d₁, firstAgain, restAgain⟩, besideLast, ?_⟩
        rw [movedOn, moved, List.length_append, Nat.add_assoc]
      · exact .inr ⟨d', bind_eq_error.2 (.inr ⟨value, d₁, firstAgain, spent⟩)⟩
    · exact .inr ⟨d', bind_eq_error.2 (.inl spent)⟩

theorem map {f : α → β} (here : Confined x begun least slack action other) :
    Confined x begun least slack (f <$> action) (f <$> other) := by
  rw [map_eq_pure_bind, map_eq_pure_bind]
  refine bind here (fun value => ?_) (Nat.le_add_left ..)
  rw [Nat.sub_self]
  exact pure

theorem ite {q : Prop} [Decidable q] {further otherFurther : Parse α}
    (yes : Confined x begun least slack action other)
    (no : Confined x begun least slack further otherFurther) :
    Confined x begun least slack (if q then action else further)
      (if q then other else otherFurther) := by
  by_cases holds : q
  · rw [if_pos holds, if_pos holds]
    exact yes
  · rw [if_neg holds, if_neg holds]
    exact no

/-- **An action that looks at the cursor**, where what it sees is the same in the excerpt. -/
theorem look {next after : Cursor → Parse α}
    (behind : ∀ c, Confined x begun least slack (next c) (after c))
    (agrees : ∀ ⦃e c d⦄, x.Beside e c d → least + slack ≤ e.length → after d = after c) :
    Confined x begun least slack (get >>= next) (get >>= after) := by
  intro c value c' run
  obtain ⟨front, confined⟩ := behind c run
  refine ⟨front, confined.left, confined.least, fun e d ahead roomy beside taken => ?_⟩
  have long : least + slack ≤ (front ++ e).length := by
    have took := confined.least ahead roomy
    rw [List.length_append]
    omega
  change (∃ d', after d d = _ ∧ _) ∨ ∃ d', after d d = _
  rw [agrees beside long]
  exact confined.again ahead roomy beside taken

/-- An action whose bound is the number of tokens left, beside one with any bound. -/
theorem fitting {each : Nat → Parse α}
    (behind : ∀ m, Confined x begun least slack action (each m)) :
    Confined x begun least slack action (get >>= fun c => each c.left.length) := by
  intro c value c' run
  obtain ⟨front, confined⟩ := behind 0 run
  refine ⟨front, confined.left, confined.least, fun e d ahead roomy beside taken => ?_⟩
  obtain ⟨front', again⟩ := behind d.left.length run
  obtain rfl : front' = front := List.append_cancel_right (again.left.symm.trans confined.left)
  exact again.again ahead roomy beside taken

/-- An action that depends on how many tokens are left. -/
theorem byLength {each otherEach : Nat → Parse α}
    (behind : ∀ n m, Confined x begun least slack (each n) (otherEach m)) :
    Confined x begun least slack (get >>= fun c => each c.left.length)
      (get >>= fun c => otherEach c.left.length) :=
  fun c _ _ run => fitting (behind c.left.length) run

/-- An action that looks at the kind of a token of the excerpt. -/
theorem onKind {next after : Kind → Parse α}
    (behind : ∀ k, Confined x begun least slack (next k) (after k)) (inside : 1 ≤ least + slack) :
    Confined x begun least slack (kind >>= next) (kind >>= after) :=
  @look _ x begun least slack (fun c => next c.kind) (fun c => after c.kind)
    (fun c => behind c.kind) fun e c d beside long => by
      rw [beside.kind_eq (List.length_pos_iff.1 (Nat.lt_of_lt_of_le inside long))]

/-- **A turn at a condition.** What is done while it holds takes tokens of the excerpt, so the
condition is the same there; where the excerpt ends, it has to fail on the end. -/
theorem turn {holds : Cursor → Bool} {stop otherStop : Parse α}
    (goes : Confined x begun least slack action other)
    (stops : Confined x begun 0 slack stop otherStop) (inside : 1 ≤ least + slack)
    (agrees : ∀ ⦃e c d⦄, x.Beside e c d → e ≠ [] → holds d = holds c)
    (rim : 1 ≤ slack ∨ ∀ d : Cursor, d.kind = .eof → holds d = false) :
    Confined x begun 0 slack (do if holds (← get) then action else stop)
      (do if holds (← get) then other else otherStop) := by
  intro c value c' run
  change (if holds c = true then action else stop) c = _ at run
  by_cases goesOn : holds c = true
  · rw [if_pos goesOn] at run
    obtain ⟨front, confined⟩ := goes run
    refine ⟨front, confined.left, fun _ _ _ => Nat.zero_le _, ?_⟩
    intro e d ahead roomy beside taken
    have some : front ++ e ≠ [] := by
      have took := confined.least ahead roomy
      rw [← List.length_pos_iff, List.length_append]
      omega
    change (∃ d', (if holds d = true then other else otherStop) d = _ ∧ _) ∨
      ∃ d', (if holds d = true then other else otherStop) d = _
    rw [agrees beside some, if_pos goesOn]
    exact confined.again ahead roomy beside taken
  · rw [if_neg goesOn] at run
    obtain ⟨front, confined⟩ := stops run
    refine ⟨front, confined.left, fun _ _ _ => Nat.zero_le _, ?_⟩
    intro e d ahead roomy beside taken
    have alike : ¬ holds d = true := by
      by_cases some : front ++ e = []
      · obtain ⟨rfl, rfl⟩ := List.append_eq_nil_iff.1 some
        rcases rim with inside | fails
        · exact absurd (Nat.le_trans inside roomy) (Nat.not_succ_le_zero 0)
        · rw [fails d beside.kind_eof]
          exact Bool.false_ne_true
      · rwa [agrees beside some]
    change (∃ d', (if holds d = true then other else otherStop) d = _ ∧ _) ∨
      ∃ d', (if holds d = true then other else otherStop) d = _
    rw [if_neg alike]
    exact confined.again ahead roomy beside taken

end Confined

variable {x : Excerpt} {begun least slack : Nat} {k : Kind}

/-! ## Single tokens -/

theorem confined_here : Confined x begun 0 1 here here :=
  .look (fun _ => .pure) fun e c d beside long => by
    rw [Cursor.here, Cursor.here, beside.current_eq (List.length_pos_iff.1 long)]

theorem confined_spanFrom (start : Position) :
    Confined x (begun + 1) 0 slack (spanFrom start) (spanFrom start) := by
  intro c value c' run
  cases run
  refine ⟨[], rfl, fun _ _ _ => Nat.zero_le _, fun e d _ _ beside taken =>
    .inl ⟨d, ?_, beside, rfl⟩⟩
  change EStateM.Result.ok (Span.mk start d.reached) d = _
  rw [beside.reached_eq (Nat.lt_of_lt_of_le (Nat.succ_pos _) taken)]

theorem confined_freshId : Confined x begun 0 slack freshId freshId := by
  intro c value c' run
  cases run
  refine ⟨[], rfl, fun _ _ _ => Nat.zero_le _, fun e d ahead _ beside _ =>
    .inl ⟨{ d with nextId := d.nextId + 1 }, ?_, ?_, rfl⟩⟩
  · change EStateM.Result.ok d.nextId { d with nextId := d.nextId + 1 } = _
    rw [beside.nextId]
  · exact ⟨beside.here, beside.there, beside.behind, congrArg (· + 1) beside.nextId, beside.final⟩

/-- A token that is taken as long as tokens of the excerpt are left behind it. -/
theorem confined_advance : Confined x begun 1 1 advance advance := by
  intro c value c' run
  cases run
  obtain ⟨front, left, single⟩ := c.exists_front_next
  have taken {e : List Token} (ahead : c.next.left = e ++ x.rest) (roomy : 1 ≤ e.length) :
      front = [c.current] := by
    refine single fun none => ?_
    have lengths := congrArg List.length ahead
    have pos := List.length_pos_iff.2 x.more
    simp only [Cursor.left, none, List.length_append, List.length_cons, List.length_nil] at lengths
    omega
  refine ⟨front, left, fun e ahead roomy => ?_, fun e d ahead roomy beside _ => ?_⟩
  · rw [taken ahead roomy]
    exact Nat.le_refl _
  · rw [taken ahead roomy] at beside ⊢
    have same := beside.current_eq (List.cons_ne_nil _ _)
    refine .inl ⟨d.next, ?_, beside.next.1, beside.next.2⟩
    change EStateM.Result.ok d.current d.next = _
    rw [same]

/-- **A token of a kind**, which may be the last of the excerpt. -/
theorem confined_expect (notEnd : k ≠ .eof) : Confined x begun 1 0 (expect k) (expect k) := by
  intro c value c' run
  have here := kind_of_run_expect run
  rw [run_expect here] at run
  cases run
  obtain ⟨front, left, single⟩ : ∃ front, c.left = front ++ c.next.left ∧
      ∀ e, c.next.left = e ++ x.rest → front = [c.current] := by
    by_cases last : c.ahead = []
    · have stays : c.next = c := by
        unfold Cursor.next
        rw [last]
      refine ⟨[], by rw [stays, List.nil_append], fun e ahead => ?_⟩
      have isEnd : c.left.getLast? = some c.current := by rw [Cursor.left, last]; rfl
      rw [stays] at ahead
      rw [ahead, List.getLast?_append_of_ne_nil _ x.more] at isEnd
      exact absurd (here.symm.trans (x.ends _ isEnd)) notEnd
    · exact ⟨[c.current], Cursor.left_next last, fun _ _ => rfl⟩
  refine ⟨front, left, fun e ahead _ => ?_, fun e d ahead _ beside _ => ?_⟩
  · rw [single e ahead]
    exact Nat.le_refl _
  · rw [single e ahead] at beside ⊢
    have same := beside.current_eq (List.cons_ne_nil _ _)
    have there : d.kind = k := (beside.kind_eq (List.cons_ne_nil _ _)).trans here
    refine .inl ⟨d.next, ?_, beside.next.1, beside.next.2⟩
    rw [run_expect there, same]

/-- The span of what was read, taken behind a token of the excerpt. -/
theorem confined_spanned {start : Position} {build : Span → α} :
    Confined x (begun + 1) 0 slack (do return build (← spanFrom start))
      (do return build (← spanFrom start)) :=
  .bind (confined_spanFrom _) (fun _ => .pure) (Nat.zero_le _)

/-- **What ends with a token** may end where the excerpt does. -/
theorem confined_ending (k : Kind) (notEnd : k ≠ .eof) {start : Position} {build : Span → α} :
    Confined x begun 1 slack (do let _ ← expect k; return build (← spanFrom start))
      (do let _ ← expect k; return build (← spanFrom start)) :=
  .bind (confined_expect notEnd) (fun _ => confined_spanned) (Nat.zero_le _)

theorem confined_unexpected {expected : String} {other : Parse α} :
    Confined x begun least slack (unexpected expected) other := by
  intro c value c' run
  exact absurd run throw_ne_ok

theorem confined_fail {fault : Fault} {position : Position} {other : Parse α} :
    Confined x begun least slack (fail fault position) other :=
  .halt

/-- A token that is taken for what its kind says. -/
theorem confined_taken (value : α) : Confined x begun 0 1
    (do let _ ← advance; return value) (do let _ ← advance; return value) :=
  .bind confined_advance (fun _ => .pure) (Nat.le_refl _)

theorem confined_consume : Confined x begun 0 1 (consume k) (consume k) := by
  refine .look (fun c => .ite (confined_taken true) .pure) fun e c d beside long => ?_
  rw [beside.kind_eq (List.length_pos_iff.1 long)]

/-- An action behind a token that may follow is a turn at the kind of the current token. -/
theorem consume_bind (next : Bool → Parse α) : consume k >>= next =
    (do if decide ((← get).kind = k) then (advance >>= fun _ => next true) else next false) := by
  funext c
  rw [get_bind]
  change ((if c.kind = k then (advance >>= fun _ => pure true) else pure false) >>= next) c = _
  by_cases here : c.kind = k
  · rw [if_pos here, decide_eq_true here, if_pos rfl]
    rfl
  · rw [if_neg here, decide_eq_false here, if_neg Bool.false_ne_true]
    rfl

/-- **A token that may follow**, with an action that takes tokens behind it. -/
theorem confined_consume_bind {next after : Bool → Parse α} (notEnd : k ≠ .eof)
    (yes : Confined x (begun + 1) 1 slack (next true) (after true))
    (no : Confined x begun 0 slack (next false) (after false)) :
    Confined x begun 0 slack (consume k >>= next) (consume k >>= after) := by
  rw [consume_bind, consume_bind]
  have goes : Confined x begun 2 slack (advance >>= fun _ => next true)
      (advance >>= fun _ => after true) :=
    .bind confined_advance (fun _ => yes) (Nat.le_add_right ..)
  refine .turn goes no (Nat.le_add_right_of_le (Nat.le_succ 1)) ?_ (.inr fun d isEnd => ?_)
  · intro e c d beside some
    rw [beside.kind_eq some]
  · rw [isEnd]
    exact decide_eq_false notEnd.symm

theorem confined_separator (closing : Kind) :
    Confined x begun 0 1 (separator closing) (separator closing) := by
  refine .look (fun c => .ite (confined_taken ()) (.ite .pure confined_unexpected))
    fun e c d beside long => ?_
  rw [beside.kind_eq (List.length_pos_iff.1 long)]

/-! ## Repetition -/

section Repetition

variable {holds : Cursor → Bool} {item other : Parse α} {step grow : α → Parse α}

/-- **A repetition of what takes a token is confined**, whatever the bounds: what comes to an end
within one of them is within the other, or the other is met. -/
theorem confined_repeatUpTo
    (agrees : ∀ ⦃e c d⦄, x.Beside e c d → e ≠ [] → holds d = holds c)
    (rim : 1 ≤ slack ∨ ∀ d : Cursor, d.kind = .eof → holds d = false)
    (each : Confined x begun 1 slack item other) (n m : Nat) :
    Confined x begun 0 slack (repeatUpTo holds item n) (repeatUpTo holds other m) := by
  induction n generalizing m begun with
  | zero =>
    have stops (further : Parse (List α)) : Confined x begun 1 slack exhausted further := .halt
    cases m with
    | zero | succ m => exact .turn (stops _) .pure (Nat.le_add_right ..) agrees rim
  | succ n ih =>
    have goes (m : Nat) : Confined x begun 1 slack
        (do let first ← item; let rest ← repeatUpTo holds item n; return first :: rest)
        (do let first ← other; let rest ← repeatUpTo holds other m; return first :: rest) :=
      .bind each (fun _ => .bind (ih each.later m) (fun _ => .pure) (Nat.le_add_left ..))
        (Nat.le_add_left ..)
    cases m with
    | zero => exact .turn (goes 0).spent .pure (Nat.le_add_right ..) agrees rim
    | succ m => exact .turn (goes m) .pure (Nat.le_add_right ..) agrees rim

theorem confined_repeatWhile
    (agrees : ∀ ⦃e c d⦄, x.Beside e c d → e ≠ [] → holds d = holds c)
    (rim : 1 ≤ slack ∨ ∀ d : Cursor, d.kind = .eof → holds d = false)
    (each : Confined x begun 1 slack item other) :
    Confined x begun 0 slack (repeatWhile holds item) (repeatWhile holds other) :=
  .byLength fun n m => confined_repeatUpTo agrees rim each n m

theorem confined_repeatUntil {closing : Kind} (each : Confined x begun 1 1 item other) :
    Confined x begun 0 1 (repeatUntil closing item) (repeatUntil closing other) :=
  confined_repeatWhile (fun e c d beside some => by rw [beside.kind_eq some]) (.inl (Nat.le_refl _))
    each

theorem confined_separated {closing : Kind} (each : Confined x begun 1 1 item other) :
    Confined x begun 0 1 (separated closing item) (separated closing other) :=
  confined_repeatUntil (.bind each (fun _ => .bind (confined_separator closing) (fun _ => .pure)
    (Nat.le_refl _)) (Nat.le_refl _))

/-- **A value that grows is confined** where tokens of the excerpt follow. -/
theorem confined_growUpTo
    (agrees : ∀ ⦃e c d⦄, x.Beside e c d → e ≠ [] → holds d = holds c)
    (each : ∀ value, Confined x begun 0 1 (step value) (grow value)) (n m : Nat) (value : α) :
    Confined x begun 0 1 (growUpTo holds step n value) (growUpTo holds grow m value) := by
  have rim : 1 ≤ 1 ∨ ∀ d : Cursor, d.kind = .eof → holds d = false := .inl (Nat.le_refl _)
  induction n generalizing m value with
  | zero =>
    have stops (further : Parse α) : Confined x begun 0 1 exhausted further := .halt
    cases m with
    | zero | succ m => exact .turn (stops _) .pure (Nat.le_refl _) agrees rim
  | succ n ih =>
    have goes (m : Nat) : Confined x begun 0 1 (step value >>= growUpTo holds step n)
        (grow value >>= growUpTo holds grow m) :=
      .bind (each value) (fun _ => ih m _) (Nat.le_refl _)
    cases m with
    | zero => exact .turn (goes 0).spent .pure (Nat.le_refl _) agrees rim
    | succ m => exact .turn (goes m) .pure (Nat.le_refl _) agrees rim

theorem confined_growWhile
    (agrees : ∀ ⦃e c d⦄, x.Beside e c d → e ≠ [] → holds d = holds c)
    (each : ∀ value, Confined x begun 0 1 (step value) (grow value)) (value : α) :
    Confined x begun 0 1 (growWhile holds step value) (growWhile holds grow value) :=
  .byLength fun n m => confined_growUpTo agrees each n m value

end Repetition

/-! ## Names -/

theorem confined_arrayMark : Confined x begun 0 1 arrayMark arrayMark :=
  .bind confined_consume (fun _ => .ite (.bind (confined_expect nofun) (fun _ => .pure)
    (Nat.zero_le _)) .pure) (Nat.le_refl _)

section Names

variable {name other : Parse Name} (each : ∀ begun, Confined x begun 1 1 name other)

include each

theorem confined_typeArguments :
    Confined x begun 2 0 (typeArguments name) (typeArguments other) :=
  .bind (confined_expect nofun) (fun _ => .bind (confined_separated (each _))
    (fun _ => .bind (confined_expect nofun) (fun _ => .pure) (Nat.zero_le _)) (Nat.le_refl _))
    (Nat.zero_le _)

/-- **An identifier is confined**: it has arguments in both places or in neither. -/
theorem confined_identifierOf :
    Confined x begun 1 1 (identifierOf name) (identifierOf other) := by
  refine .bind (confined_expect nofun) (fun token => .look (fun c => .ite ?_ .pure) ?_)
    (Nat.zero_le _)
  · refine .bind confined_freshId (fun id => ?_) (Nat.zero_le _)
    refine .bind (confined_typeArguments each) (fun names => ?_) (Nat.zero_le _)
    exact confined_spanned
  · intro e c d beside long
    rw [beside.opensArguments_eq (List.length_pos_iff.1 long)]

theorem confined_segmentOf : Confined x begun 1 1 (segmentOf name) (segmentOf other) := by
  refine .bind (confined_identifierOf each) (fun found => ?_) (Nat.le_refl _)
  cases found with
  | plain text span => exact .bind confined_freshId (fun _ => .pure) (Nat.zero_le _)
  | applied segment => exact .pure

end Names

/-- **A name is confined**, however deep it may nest. -/
theorem confined_nameUpTo (n m begun : Nat) : Confined x begun 1 1 (nameUpTo n) (nameUpTo m) := by
  induction n generalizing m begun with
  | zero => exact .halt
  | succ n ih =>
    have goes (m : Nat) : Confined x begun 1 1 (nameUpTo (n + 1)) (nameUpTo (m + 1)) := by
      refine .bind confined_here (fun start => ?_) (Nat.le_add_left ..)
      refine .bind (confined_segmentOf (ih m)) (fun first => ?_) (Nat.le_refl _)
      refine .bind (confined_repeatWhile ?_ (.inl (Nat.le_refl _)) ?_) (fun rest => ?_)
        (Nat.le_refl _)
      · intro e c d beside some
        rw [beside.kind_eq some]
      · exact .bind confined_advance (fun _ => (confined_segmentOf (ih m)).few) (Nat.le_add_left ..)
      · exact confined_spanned
    cases m with
    | zero => exact (goes 0).spent
    | succ m => exact goes m

theorem confined_name : Confined x begun 1 1 name name :=
  .byLength fun n m => confined_nameUpTo n m _

theorem confined_identifier : Confined x begun 1 1 identifier identifier :=
  confined_identifierOf fun _ => confined_name

theorem confined_segment : Confined x begun 1 1 segment segment :=
  confined_segmentOf fun _ => confined_name

theorem confined_typeParameter : Confined x begun 1 1 typeParameter typeParameter := by
  refine .bind (confined_expect nofun) (fun token => ?_) (Nat.zero_le _)
  refine .bind confined_consume (fun bounded => ?_) (Nat.le_refl _)
  dsimp only
  refine .ite ?_ ?_
  · exact .bind confined_name.map (fun bound => .bind (confined_separator _) (fun _ => .pure)
      (Nat.le_refl _)) (Nat.le_add_left ..)
  · exact .bind .pure (fun bound => .bind (confined_separator _) (fun _ => .pure)
      (Nat.le_refl _)) (Nat.zero_le _)

theorem confined_typeParameters : Confined x begun 0 1 typeParameters typeParameters := by
  refine .bind confined_consume (fun opens => .ite ?_ .pure) (Nat.le_refl _)
  refine .bind (confined_repeatUntil confined_typeParameter) (fun parameters => ?_) (Nat.le_refl _)
  exact .bind (confined_expect nofun) (fun _ => .pure) (Nat.zero_le _)

end Parse

end FrontEnd

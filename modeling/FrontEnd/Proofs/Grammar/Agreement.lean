import FrontEnd.Grammar.Name
import FrontEnd.Proofs.Grammar.ArgumentList
import FrontEnd.Proofs.Grammar.Taking
import FrontEnd.Proofs.Program.Printable

/-!
# The lookahead and the parser agree

Where the lookahead finds a list of type arguments, the parser takes this list and stops where the
lookahead said it ends, although it looks ahead again at every segment inside the list. The names of
a list are taken for every depth that is at least their length, so the bound of the recursion is
never met.

**The law** (`Parse.lookahead_agrees`): parsing the arguments ends well wherever the lookahead finds
a list, and an identifier stays plain exactly where it finds none.
-/

namespace FrontEnd

open Token Lookahead

/-- Arguments follow exactly where the lookahead finds a list. -/
theorem Cursor.opensArguments_eq (c : Cursor) :
    c.opensArguments = (afterList? (c.left.map Token.kind)).isSome := by
  unfold opensArguments
  by_cases less : c.kind = .less
  · simp [less]
  · have none : afterList? (c.left.map Token.kind) = none := by
      unfold afterList?
      split
      next tail kinds => exact absurd (Cursor.kind_of_left kinds) less
      next => rfl
    rw [none, Option.isSome_none, Bool.and_false]

namespace Parse

variable {name : Parse Name} {rest : List Kind}

/-! ## Identifiers and segments -/

theorem takes_identifierOf_plain (none : afterList? rest = none) (more : rest ≠ []) :
    Takes (identifierOf name) [.identifier] rest fun found =>
      ∃ text span, found = .plain text span := by
  refine .token (takes_expect more) fun token _ => .look fun c kinds => ?_
  rw [Cursor.opensArguments_eq, kinds, List.nil_append, none]
  exact .pure ⟨token.text, token.span, rfl⟩

theorem takes_identifierOf_applied {l : List Kind} {good : List Name → Prop}
    (list : Word .list l) (more : rest ≠ []) (taken : Takes (typeArguments name) l rest good) :
    Takes (identifierOf name) (.identifier :: l) rest fun found =>
      ∃ segment, found = .applied segment ∧ good segment.arguments := by
  have behind : l ++ rest ≠ [] := by simp [more]
  refine .token (takes_expect behind) fun token _ => .look fun c kinds => ?_
  rw [Cursor.opensArguments_eq, kinds, afterList?_eq_some_iff.2 ⟨l, list, rfl⟩]
  refine .still takes_freshId fun id _ => ?_
  refine .whole taken fun arguments isGood => ?_
  exact .still (takes_spanFrom _) fun span _ => .pure ⟨_, rfl, isGood⟩

theorem takes_segmentOf_plain (none : afterList? rest = none) (more : rest ≠ []) :
    Takes (segmentOf name) [.identifier] rest fun segment => segment.arguments = [] := by
  refine .whole (takes_identifierOf_plain none more) fun found plain => ?_
  obtain ⟨text, span, rfl⟩ := plain
  exact .still takes_freshId fun _ _ => .pure rfl

theorem takes_segmentOf_applied {l : List Kind} {good : List Name → Prop}
    (list : Word .list l) (more : rest ≠ []) (taken : Takes (typeArguments name) l rest good) :
    Takes (segmentOf name) (.identifier :: l) rest fun segment => good segment.arguments := by
  refine .whole (takes_identifierOf_applied list more taken) fun found applied => ?_
  obtain ⟨segment, rfl, isGood⟩ := applied
  exact .pure isGood

/-! ## Lists -/

section Lists

variable {w : List Kind} {good : Name → Prop}

/-- An item of a list with the separator behind it. -/
def listItem (name : Parse Name) : Parse Name := do
  let value ← name
  separator .greater
  return value

/-- The items of a list, at most a number of them. -/
def listItems (name : Parse Name) (n : Nat) : Parse (List Name) :=
  repeatUpTo (fun c => c.kind ≠ .greater) (listItem name) n

/-- The items of a list: there are some, and each is good. -/
def GoodItems (good : Name → Prop) (names : List Name) : Prop :=
  names ≠ [] ∧ ∀ name ∈ names, good name

theorem takes_listItem_comma {i : List Kind} (more : rest ≠ [])
    (taken : Takes name i (.comma :: rest) good) :
    Takes (listItem name) (i ++ [.comma]) rest good :=
  .bind taken fun _ isGood => .token (takes_separator_comma more) fun _ _ => .pure isGood

theorem takes_listItem_last {i : List Kind} (taken : Takes name i (.greater :: rest) good) :
    Takes (listItem name) i (.greater :: rest) good :=
  .whole taken fun _ isGood => .still (takes_separator_closing nofun) fun _ _ => .pure isGood

theorem takes_listItems_nil (n : Nat) :
    Takes (listItems name n) [] (.greater :: rest) fun names => ∀ name ∈ names, good name := by
  refine (takes_repeatUpTo_nil fun c kinds => ?_).weaken ?_
  · simp [Cursor.kind_of_left kinds]
  · rintro _ rfl
    exact List.forall_mem_nil _

theorem takes_listItems_cons {word u v : List Kind} {n : Nat}
    (split : word = .identifier :: u ++ v)
    (item : Takes (listItem name) (.identifier :: u) (v ++ .greater :: rest) good)
    (behind : Takes (listItems name n) v (.greater :: rest) fun names =>
      ∀ name ∈ names, good name) :
    Takes (listItems name (n + 1)) word (.greater :: rest) (GoodItems good) := by
  subst split
  refine (takes_repeatUpTo_cons (fun c kinds => ?_) item behind).weaken ?_
  · simp [Cursor.kind_of_left kinds]
  · rintro _ ⟨first, later, rfl, isGood, areGood⟩
    exact ⟨List.cons_ne_nil _ _, List.forall_mem_cons.2 ⟨isGood, areGood⟩⟩

/-- **The items of a list are taken**, each by the action for names. -/
theorem takes_listItems (words : Word .items w)
    (names : ∀ i behind, Word .item i → i.length ≤ w.length → Closes behind →
      Takes name i behind good) {n : Nat} (enough : w.length ≤ n) :
    Takes (listItems name n) w (.greater :: rest) (GoodItems good) := by
  generalize same : Part.items = p at words
  induction words generalizing n with
  | last item =>
    obtain ⟨tail, rfl⟩ := item.item_eq_cons
    cases n with
    | zero => simp at enough
    | succ n =>
      have taken := names _ (.greater :: rest) item (Nat.le_refl _) .greater
      exact takes_listItems_cons (List.append_nil _).symm (takes_listItem_last taken)
        (takes_listItems_nil n)
  | trailing item =>
    obtain ⟨tail, rfl⟩ := item.item_eq_cons
    cases n with
    | zero => simp at enough
    | succ n =>
      have taken := names _ (.comma :: .greater :: rest) item (by simp) .comma
      exact takes_listItems_cons (List.append_nil _).symm
        (takes_listItem_comma (List.cons_ne_nil _ _) taken) (takes_listItems_nil n)
  | @more i w item words _ ih =>
    obtain ⟨tail, rfl⟩ := item.item_eq_cons
    rw [List.length_append, List.length_cons, List.length_cons] at enough
    rw [List.length_append, List.length_cons, List.length_cons] at names
    cases n with
    | zero => omega
    | succ n =>
      have taken := names _ (.comma :: (w ++ .greater :: rest)) item (by simp) .comma
      have later : Takes (listItems name n) w (.greater :: rest) (GoodItems good) :=
        ih (fun i behind item short closes => names i behind item (by omega) closes) (by omega) rfl
      exact takes_listItems_cons (List.append_cons ..) (takes_listItem_comma (by simp) taken)
        (later.weaken fun _ => And.right)
  | _ => cases same

/-- **A list of arguments is taken** by an action that takes the names in it. -/
theorem takes_typeArguments {l : List Kind} (list : Word .list l) (more : rest ≠ [])
    (names : ∀ i behind, Word .item i → i.length < l.length → Closes behind →
      Takes name i behind good) :
    Takes (typeArguments name) l rest (GoodItems good) := by
  cases list with
  | @list w words =>
    have items : Takes (separated .greater name) w (.greater :: rest) (GoodItems good) := by
      refine .look fun c kinds => takes_listItems words (fun i behind item short closes => ?_) ?_
      · refine names i behind item ?_ closes
        simp only [List.length_append, List.length_cons]
        omega
      · rw [← List.length_map Token.kind, kinds, List.length_append]
        exact Nat.le_add_right ..
    refine .token (takes_expect (by simp)) fun _ _ => .bind items fun found isGood => ?_
    exact .token (takes_expect more) fun _ _ => .pure isGood

end Lists

/-! ## Names -/

/-- A name in a list of arguments: only its last segment carries arguments. -/
def ItemName (name : Name) : Prop :=
  Itemised name.segments

/-- **An item is a segment and segments behind points**, which are taken when its lists are. -/
theorem takes_segments {i : List Kind} (item : Word .item i) (closes : Closes rest)
    (lists : ∀ l behind, Word .list l → l.length < i.length → behind ≠ [] →
      Takes (typeArguments name) l behind (GoodItems ItemName)) :
    ∃ u v, ∃ goodFirst : Segment → Prop, ∃ goodLater : List Segment → Prop, i = u ++ v ∧
      Takes (segmentOf name) u (v ++ rest) goodFirst ∧
      (∀ n, v.length ≤ n → Takes (repeatUpTo (fun c => c.kind = .dot)
        (do let _ ← advance; segmentOf name) n) v rest goodLater) ∧
      ∀ first later, goodFirst first → goodLater later → Itemised (first :: later) := by
  have more : rest ≠ [] := by
    cases closes <;> exact List.cons_ne_nil _ _
  have noList : afterList? rest = none := by
    cases closes <;> rfl
  have ends : ∀ n, ([] : List Kind).length ≤ n → Takes (repeatUpTo (fun c => c.kind = .dot)
      (do let _ ← advance; segmentOf name) n) [] rest (· = []) := by
    intro n _
    refine takes_repeatUpTo_nil fun c kinds => ?_
    cases closes <;> simp [Cursor.kind_of_left kinds]
  generalize same : Part.item = p at item
  induction item with
  | plain =>
    refine ⟨_, [], _, _, rfl, takes_segmentOf_plain noList more, ends, ?_⟩
    rintro first _ plain rfl
    refine .last fun a mem => ?_
    rw [plain] at mem
    cases mem
  | @applied l list =>
    have taken := lists l rest list (Nat.lt_succ_self _) more
    refine ⟨_, [], _, _, (List.append_nil _).symm, takes_segmentOf_applied list more taken, ends, ?_⟩
    rintro first _ isGood rfl
    exact .last isGood.2
  | @dotted i item ih =>
    obtain ⟨u, v, _, _, rfl, first, later, shape⟩ := ih (fun l behind list short =>
      lists l behind list (by simp only [List.length_cons]; omega)) rfl
    refine ⟨[.identifier], .dot :: (u ++ v), _, Itemised, rfl,
      takes_segmentOf_plain rfl (by simp), ?_, fun _ _ plain => .dotted plain⟩
    intro n enough
    rw [List.length_cons, List.length_append] at enough
    cases n with
    | zero => omega
    | succ n =>
      have item : Takes (do let _ ← advance; segmentOf name) (.dot :: u) (v ++ rest) _ :=
        .token (takes_advance (by simp [more])) fun _ _ => first
      have behind := later n (by omega)
      refine (takes_repeatUpTo_cons (fun c kinds => ?_) item behind).weaken ?_
      · simp [Cursor.kind_of_left kinds]
      · rintro _ ⟨second, later, rfl, isFirst, areLater⟩
        exact shape second later isFirst areLater
  | _ => cases same

/-- **A name is taken** at every depth that is at least its length. -/
theorem takes_nameUpTo (n : Nat) {i : List Kind} (item : Word .item i) (closes : Closes rest)
    (enough : i.length ≤ n) : Takes (nameUpTo n) i rest ItemName := by
  induction n generalizing i rest with
  | zero =>
    obtain ⟨tail, rfl⟩ := item.item_eq_cons
    simp at enough
  | succ n ih =>
    have lists : ∀ l behind, Word .list l → l.length < i.length → behind ≠ [] →
        Takes (typeArguments (nameUpTo n)) l behind (GoodItems ItemName) := by
      intro l behind list short more
      exact takes_typeArguments list more fun i behind item shorter closes =>
        ih item closes (by omega)
    obtain ⟨u, v, _, goodLater, rfl, first, later, shape⟩ := takes_segments item closes lists
    refine .still takes_here fun start _ => .bind first fun _ isFirst => ?_
    have rest' : Takes (repeatWhile (fun c => c.kind = .dot)
        (do let _ ← advance; segmentOf (nameUpTo n))) v rest goodLater := by
      refine .look fun c kinds => later _ ?_
      rw [← List.length_map Token.kind, kinds, List.length_append]
      exact Nat.le_add_right ..
    exact .whole rest' fun _ areLater => .still (takes_spanFrom _) fun _ _ =>
      .pure (shape _ _ isFirst areLater)

/-- **A list of type arguments is taken** by the action for names of a depth that is at least its
length less one. -/
theorem takes_argumentsUpTo {n : Nat} {l : List Kind} (list : Word .list l) (more : rest ≠ [])
    (enough : l.length ≤ n + 1) :
    Takes (typeArguments (nameUpTo n)) l rest (GoodItems ItemName) :=
  takes_typeArguments list more fun _ _ item short closes =>
    takes_nameUpTo n item closes (by omega)

/-- **Every list of type arguments is taken**, as names such as a list has. -/
theorem takes_itemArguments {l : List Kind} (list : Word .list l) (more : rest ≠ []) :
    Takes (typeArguments Parse.name) l rest (GoodItems ItemName) := by
  refine takes_typeArguments list more fun i behind item _ closes => ?_
  refine .look fun c kinds => takes_nameUpTo _ item closes ?_
  rw [← List.length_map Token.kind, kinds, List.length_append]
  exact Nat.le_add_right ..

theorem takes_arguments {l : List Kind} (list : Word .list l) (more : rest ≠ []) :
    Takes (typeArguments Parse.name) l rest (· ≠ []) :=
  (takes_itemArguments list more).weaken fun _ => And.left

end Parse

/-! ## The agreement -/

/-- **The index behind a list** is that behind a word of the grammar which begins at the start. -/
theorem argumentListEnd?_eq_some_iff {tokens : List Token} {start stop : Nat} :
    argumentListEnd? tokens start = some stop ↔ ∃ l rest, Word .list l ∧
      (tokens.drop start).map Token.kind = l ++ rest ∧ stop = start + l.length := by
  rw [argumentListEnd?, Option.map_eq_some_iff]
  have total : ∀ {l rest : List Kind}, Word .list l →
      (tokens.drop start).map Token.kind = l ++ rest →
      tokens.length = start + l.length + rest.length := by
    intro l rest list kinds
    have atLeast := list.three_le_length
    have lengths := congrArg List.length kinds
    rw [List.length_map, List.length_drop, List.length_append] at lengths
    omega
  constructor
  · rintro ⟨rest, found, rfl⟩
    obtain ⟨l, list, kinds⟩ := afterList?_eq_some_iff.1 found
    refine ⟨l, rest, list, kinds, ?_⟩
    rw [total list kinds, Nat.add_sub_cancel]
  · rintro ⟨l, rest, list, kinds, rfl⟩
    refine ⟨rest, afterList?_eq_some_iff.2 ⟨l, list, kinds⟩, ?_⟩
    rw [total list kinds, Nat.add_sub_cancel]

/-- The tokens that a cursor runs over end with a token of the end. -/
def Cursor.Ends (c : Cursor) : Prop :=
  (c.tokens.map Token.kind).getLast? = some .eof

theorem Cursor.Ends.next {c : Cursor} (ends : c.Ends) : c.next.Ends := by
  rw [Ends, c.tokens_next]
  exact ends

/-- A list is not the last of such tokens. -/
theorem Cursor.Ends.behind_ne_nil {c : Cursor} (ends : c.Ends) {l rest : List Kind}
    (list : Word .list l) {start : Nat}
    (kinds : (c.tokens.drop start).map Token.kind = l ++ rest) : rest ≠ [] := by
  rintro rfl
  cases list with
  | @list w _ =>
    have last := congrArg List.getLast? kinds
    rw [List.map_drop, List.getLast?_drop, List.append_nil, ← List.cons_append,
      List.getLast?_concat] at last
    split at last
    · cases last
    · rw [ends] at last
      cases last

theorem Cursor.Ends.ahead_ne_nil {c : Cursor} (ends : c.Ends) (notLast : c.kind ≠ .eof) :
    c.ahead ≠ [] := by
  intro none
  rw [Ends, tokens, none, List.map_append, List.map_singleton, List.getLast?_concat] at ends
  exact notLast (Option.some.inj ends)

namespace Parse

theorem run_expect {c : Cursor} {k : Kind} (here : c.kind = k) :
    expect k c = .ok c.current c.next := by
  change (if c.kind = k then advance else unexpected k.name) c = _
  rw [if_pos here]
  rfl

/-- An identifier that no list follows is plain, and the cursor stands behind it. -/
theorem run_identifier_plain {c : Cursor} (here : c.kind = .identifier) (more : c.ahead ≠ [])
    (noList : argumentListEnd? c.tokens (c.index + 1) = none) :
    identifier c = .ok (.plain c.current.text c.current.span) c.next := by
  have behind : c.next.left = c.tokens.drop (c.index + 1) := by
    rw [Cursor.left_eq, c.tokens_next, c.index_next, if_neg more]
  have noneLeft : afterList? (c.next.left.map Token.kind) = none := by
    rw [behind]
    exact Option.map_eq_none_iff.1 noList
  refine bind_eq_ok.2 ⟨c.current, c.next, run_expect here, ?_⟩
  refine bind_eq_ok.2 ⟨c.next, c.next, rfl, ?_⟩
  rw [Cursor.opensArguments_eq, noneLeft]
  rfl

/-- An identifier that a list follows is taken with the list as its arguments. -/
theorem run_identifier_applied {c : Cursor} (ends : c.Ends) (here : c.kind = .identifier)
    {stop : Nat} (found : argumentListEnd? c.tokens (c.index + 1) = some stop) :
    ∃ segment c', identifier c = .ok (.applied segment) c' ∧ c'.tokens = c.tokens ∧
      c'.index = stop ∧ segment.arguments ≠ [] := by
  obtain ⟨l, rest, list, kinds, rfl⟩ := argumentListEnd?_eq_some_iff.1 found
  have more := ends.behind_ne_nil list kinds
  have left : c.left.map Token.kind = .identifier :: l ++ rest := by
    rw [List.cons_append, ← kinds, ← c.ahead_eq, ← here]
    rfl
  obtain ⟨_, c', run, same, moved, segment, rfl, some⟩ :=
    (takes_identifierOf_applied list more (takes_arguments list more)).run left
  refine ⟨segment, c', run, same, ?_, some⟩
  rw [moved, List.length_cons]
  omega

/-- **The lookahead and the parser agree.** Where the lookahead finds a list of type arguments, the
parser takes at least one argument and stops where the list ends. An identifier is always taken, and
it stays plain exactly where no list follows. -/
theorem lookahead_agrees (c : Cursor) (ends : c.Ends) :
    (∀ stop, argumentListEnd? c.tokens c.index = some stop →
      ∃ arguments c', typeArguments name c = .ok arguments c' ∧ c'.tokens = c.tokens ∧
        c'.index = stop ∧ arguments ≠ []) ∧
    (c.kind = .identifier → ∃ found c', identifier c = .ok found c' ∧ c'.tokens = c.tokens ∧
      (argumentListEnd? c.tokens (c.index + 1) = none ↔
        found = .plain c.current.text c.current.span ∧ c'.index = c.index + 1) ∧
      ∀ stop, argumentListEnd? c.tokens (c.index + 1) = some stop →
        c'.index = stop ∧ ∃ segment, found = .applied segment ∧ segment.arguments ≠ []) := by
  constructor
  · intro stop found
    obtain ⟨l, rest, list, kinds, rfl⟩ := argumentListEnd?_eq_some_iff.1 found
    have more := ends.behind_ne_nil list kinds
    rw [← Cursor.left_eq] at kinds
    exact (takes_arguments list more).run kinds
  · intro here
    have more : c.ahead ≠ [] := ends.ahead_ne_nil (by rw [here]; nofun)
    cases found : argumentListEnd? c.tokens (c.index + 1) with
    | none =>
      have moved : c.next.index = c.index + 1 := by rw [c.index_next, if_neg more]
      exact ⟨_, _, run_identifier_plain here more found, c.tokens_next, by simp [moved], nofun⟩
    | some stop =>
      obtain ⟨segment, c', run, same, moved, some⟩ := run_identifier_applied ends here found
      refine ⟨_, c', run, same, by simp, fun other atStop => ?_⟩
      cases atStop
      exact ⟨moved, segment, rfl, some⟩

/-- A cursor on a name with an argument. -/
def onApplied : Cursor where
  behind := []
  current := ⟨.identifier, "Box", default⟩
  ahead := [⟨.less, "<", default⟩, ⟨.identifier, "int", default⟩, ⟨.greater, ">", default⟩,
    .ending default]
  nextId := 0
  file := "m"

/-- The name is taken with its argument. -/
theorem identifier_onApplied :
    onApplied.Ends ∧ argumentListEnd? onApplied.tokens 1 = some 4 ∧
      ∃ segment c', identifier onApplied = .ok (.applied segment) c' ∧ c'.index = 4 := by
  obtain ⟨found, c', run, -, -, applied⟩ := (lookahead_agrees onApplied rfl).2 rfl
  obtain ⟨moved, segment, rfl, -⟩ := applied 4 rfl
  exact ⟨rfl, rfl, segment, c', run, moved⟩

end Parse

end FrontEnd

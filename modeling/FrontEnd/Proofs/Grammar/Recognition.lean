import FrontEnd.Proofs.Grammar.Agreement
import Mathlib.Computability.Language

/-!
# The lookahead recognises its grammar

The grammar of a list of type arguments, with its repetitions and its options as they are written,
is a system of three equations between languages over the kinds of token:

    list  = "<" items ">"
    items = item ("," item)* ","?
    item  = identifier ("." identifier)* list?

The words that the lookahead is measured by (`Lookahead.Word`) solve it. The lookahead works on what
is left of the tokens. A run by index, which only ever moves an index over the tokens, finds the
same, and it is not out of turns before it has an answer.

**The law** (`Lookahead.recognises`): the index that is found is the only one up to which the tokens
form a list, and it is found within as many turns as there are tokens.
-/

namespace FrontEnd.Lookahead

open Token
open scoped Computability

/-! ## The grammar as it is written -/

/-- The words of a part, as a language over the kinds of token. -/
def Part.words (p : Part) : Language Kind :=
  {w | Word p w}

/-- An identifier with further segments behind it, and then a list or nothing, is an item. -/
theorem Word.item_of_segments {segments : List (List Kind)} {tail : List Kind}
    (further : ∀ s ∈ segments, s = [.dot, .identifier]) (applied : tail = [] ∨ Word .list tail) :
    Word .item (.identifier :: (segments.flatten ++ tail)) := by
  induction segments with
  | nil =>
    rcases applied with rfl | list
    · exact .plain
    · exact .applied list
  | cons first rest ih =>
    obtain ⟨rfl, behind⟩ := List.forall_mem_cons.1 further
    exact .dotted (ih behind)

/-- **An item** is an identifier, points with an identifier behind each, and then a list or not. -/
theorem words_item : Part.item.words =
    {[.identifier]} * ({[.dot, .identifier]} : Language Kind)∗ * (1 + Part.list.words) := by
  ext w
  simp only [Language.mem_mul, Language.mem_kstar, Language.mem_add, Language.mem_one]
  constructor
  · intro item
    change Word .item w at item
    generalize same : Part.item = p at item
    induction item with
    | plain => exact ⟨_, ⟨_, rfl, _, ⟨[], rfl, nofun⟩, rfl⟩, _, .inl rfl, rfl⟩
    | applied list => exact ⟨_, ⟨_, rfl, _, ⟨[], rfl, nofun⟩, rfl⟩, _, .inr list, rfl⟩
    | dotted _ ih =>
      obtain ⟨_, ⟨_, rfl, _, ⟨segments, rfl, further⟩, rfl⟩, tail, applied, rfl⟩ := ih rfl
      refine ⟨_, ⟨_, rfl, _, ⟨[.dot, .identifier] :: segments, rfl, ?_⟩, rfl⟩, tail, applied, rfl⟩
      exact List.forall_mem_cons.2 ⟨rfl, further⟩
    | _ => cases same
  · rintro ⟨_, ⟨_, rfl, _, ⟨segments, rfl, further⟩, rfl⟩, tail, applied, rfl⟩
    exact Word.item_of_segments further applied

/-- An item with further items behind it, a comma before each, and then a comma or nothing, is
items. -/
theorem Word.items_of_further {first tail : List Kind} {further : List (List Kind)}
    (item : Word .item first) (each : ∀ w ∈ further, ∃ i, Word .item i ∧ .comma :: i = w)
    (trailing : tail = [] ∨ tail = [.comma]) : Word .items (first ++ further.flatten ++ tail) := by
  induction further generalizing first with
  | nil =>
    rw [List.flatten_nil, List.append_nil]
    rcases trailing with rfl | rfl
    · rw [List.append_nil]
      exact .last item
    · exact .trailing item
  | cons next rest ih =>
    obtain ⟨⟨i, itemToo, rfl⟩, behind⟩ := List.forall_mem_cons.1 each
    have more := Word.more item (ih itemToo behind)
    rwa [List.flatten_cons, List.append_assoc, List.cons_append, List.cons_append]

/-- **Items** are an item, commas with an item behind each, and then a comma or not. -/
theorem words_items : Part.items.words =
    Part.item.words * ({[.comma]} * Part.item.words)∗ * (1 + {[.comma]}) := by
  ext w
  simp only [Language.mem_mul, Language.mem_kstar, Language.mem_add, Language.mem_one]
  constructor
  · intro items
    change Word .items w at items
    generalize same : Part.items = p at items
    induction items with
    | @last i item =>
      exact ⟨_, ⟨i, item, _, ⟨[], rfl, nofun⟩, rfl⟩, [], .inl rfl, by simp⟩
    | @trailing i item =>
      exact ⟨_, ⟨i, item, _, ⟨[], rfl, nofun⟩, rfl⟩, [.comma], .inr rfl, by simp⟩
    | @more i _ item _ _ ih =>
      obtain ⟨_, ⟨first, isItem, _, ⟨further, rfl, each⟩, rfl⟩, tail, trailing, rfl⟩ := ih rfl
      have all := List.forall_mem_cons.2 ⟨⟨[.comma], rfl, first, isItem, rfl⟩, each⟩
      exact ⟨_, ⟨i, item, _, ⟨_ :: further, rfl, all⟩, rfl⟩, tail, trailing, by simp⟩
    | _ => cases same
  · rintro ⟨_, ⟨first, item, _, ⟨further, rfl, each⟩, rfl⟩, tail, trailing, rfl⟩
    refine Word.items_of_further item (fun w mem => ?_) trailing
    obtain ⟨_, rfl, i, isItem, rfl⟩ := each w mem
    exact ⟨i, isItem, rfl⟩

/-- **A list** is items between two brackets. -/
theorem words_list : Part.list.words = {[.less]} * Part.items.words * {[.greater]} := by
  ext w
  simp only [Language.mem_mul]
  constructor
  · intro list
    cases list with
    | @list w items => exact ⟨_, ⟨_, rfl, w, items, rfl⟩, _, rfl, rfl⟩
  · rintro ⟨_, ⟨_, rfl, w, items, rfl⟩, _, rfl, rfl⟩
    exact .list items

/-! ## The run by index -/

section Indices

variable (tokens : List Token)

/-- The kind of the token at an index, the end past the last one. -/
def kindAt (index : Nat) : Kind :=
  (tokens[index]?).elim .eof Token.kind

/-- The index behind the further segments of a name, if an identifier stands behind each point. -/
def segmentsEnd? : Nat → Nat → OptionT Option Nat
  | 0, _ => .mk none
  | turns + 1, index =>
    if kindAt tokens index = .dot then do
      guard (kindAt tokens (index + 1) = .identifier)
      segmentsEnd? turns (index + 2)
    else pure index

mutual
/-- The index behind the items of a list and its closing bracket. -/
def itemsEnd? : Nat → Nat → OptionT Option Nat
  | 0, _ => .mk none
  | turns + 1, index => do
    guard (kindAt tokens index = .identifier)
    let afterName ← segmentsEnd? tokens turns (index + 1)
    let afterItem ← argumentsEnd? turns afterName
    if kindAt tokens afterItem = .comma then
      if kindAt tokens (afterItem + 1) = .greater then pure (afterItem + 2)
      else itemsEnd? turns (afterItem + 1)
    else do
      guard (kindAt tokens afterItem = .greater)
      pure (afterItem + 1)
/-- The index behind a list of arguments if one stands there, and otherwise the same. -/
def argumentsEnd? : Nat → Nat → OptionT Option Nat
  | 0, _ => .mk none
  | turns + 1, index =>
    if kindAt tokens index = .less then itemsEnd? turns (index + 1) else pure index
end

/-- **The index behind the list that begins at an index**, if one begins there. -/
def listEnd? (turns start : Nat) : OptionT Option Nat := do
  guard (kindAt tokens start = .less)
  itemsEnd? tokens turns (start + 1)

/-- The kinds from an index on. -/
def kindsFrom (index : Nat) : List Kind :=
  (tokens.drop index).map Token.kind

/-- **A run by index finds what the lookahead finds**: an index no earlier than the start, where
what the lookahead leaves begins; or nothing where it finds nothing. -/
inductive Finds (start : Nat) : OptionT Option Nat → Option (List Kind) → Prop
  | found {index : Nat} : start ≤ index → index ≤ tokens.length →
    Finds start (pure index) (some (kindsFrom tokens index))
  | nothing : Finds start failure none

end Indices

variable {tokens : List Token} {index start : Nat} {k : Kind}

/-! ### What is left from an index on -/

theorem kindsFrom_of_le (past : tokens.length ≤ index) : kindsFrom tokens index = [] := by
  rw [kindsFrom, List.drop_eq_nil_of_le past, List.map_nil]

theorem kindsFrom_of_lt (inside : index < tokens.length) :
    kindsFrom tokens index = kindAt tokens index :: kindsFrom tokens (index + 1) := by
  rw [kindsFrom, List.drop_eq_getElem_cons inside, List.map_cons, kindAt,
    List.getElem?_eq_getElem inside]
  rfl

/-- A kind other than the end is that of a token. -/
theorem lt_of_kindAt (here : kindAt tokens index = k) (notEnd : k ≠ .eof) :
    index < tokens.length := by
  apply Nat.lt_of_not_le
  intro past
  rw [kindAt, List.getElem?_eq_none past] at here
  exact notEnd here.symm

theorem kindsFrom_eq_cons (here : kindAt tokens index = k) (notEnd : k ≠ .eof) :
    kindsFrom tokens index = k :: kindsFrom tokens (index + 1) := by
  rw [kindsFrom_of_lt (lt_of_kindAt here notEnd), here]

theorem kindsFrom_ne_cons (other : kindAt tokens index ≠ k) (rest : List Kind) :
    kindsFrom tokens index ≠ k :: rest := by
  intro same
  by_cases inside : index < tokens.length
  · rw [kindsFrom_of_lt inside] at same
    exact other (List.cons.inj same).1
  · rw [kindsFrom_of_le (Nat.le_of_not_lt inside)] at same
    cases same

/-! ### The rules -/

namespace Finds

variable {x : OptionT Option Nat} {left : Option (List Kind)}

theorem weaken {later : Nat} (finds : Finds tokens later x left) (le : start ≤ later) :
    Finds tokens start x left := by
  cases finds with
  | found behind inside => exact .found (Nat.le_trans le behind) inside
  | nothing => exact .nothing

/-- **A run behind another** starts at the index that this one found. -/
theorem bind {next : Nat → OptionT Option Nat} {after : List Kind → Option (List Kind)}
    (finds : Finds tokens start x left)
    (behind : ∀ index, start ≤ index → index ≤ tokens.length →
      Finds tokens start (next index) (after (kindsFrom tokens index))) :
    Finds tokens start (x >>= next) (left.bind after) := by
  cases finds with
  | found from_ inside => exact behind _ from_ inside
  | nothing => exact .nothing

/-- A run behind a condition without which the lookahead finds nothing. -/
theorem guarded {p : Prop} [Decidable p] (holds : p → Finds tokens start x left)
    (fails : ¬ p → left = none) : Finds tokens start (do guard p; x) left := by
  by_cases here : p
  · rw [guard, if_pos here]
    exact holds here
  · rw [guard, if_neg here, fails here]
    exact .nothing

end Finds

/-! ### The lookahead by its first kind -/

section FirstKind

variable {n : Nat} {kinds rest : List Kind}

theorem afterSegments?_dot (other : ∀ rest, kinds ≠ .identifier :: rest) :
    afterSegments? (.dot :: kinds) = none := by
  unfold afterSegments?
  split <;> simp_all

theorem afterSegments?_other (other : ∀ rest, kinds ≠ .dot :: rest) :
    afterSegments? kinds = some kinds := by
  unfold afterSegments?
  split <;> simp_all

theorem afterArguments?_other (other : ∀ rest, kinds ≠ .less :: rest) :
    afterArguments? n kinds = some kinds := by
  unfold afterArguments?
  split <;> simp_all

theorem afterItems?_other (other : ∀ rest, kinds ≠ .identifier :: rest) :
    afterItems? n kinds = none := by
  unfold afterItems?
  split <;> simp_all

/-- What follows the items of a list behind its first item. -/
def behindItem? (n : Nat) : List Kind → Option (List Kind)
  | .comma :: .greater :: rest => some rest
  | .comma :: rest => afterItems? n rest
  | .greater :: rest => some rest
  | _ => none

theorem behindItem?_comma (other : ∀ rest, kinds ≠ .greater :: rest) :
    behindItem? n (.comma :: kinds) = afterItems? n kinds := by
  unfold behindItem?
  split <;> simp_all

theorem behindItem?_other (notComma : ∀ rest, kinds ≠ .comma :: rest)
    (notGreater : ∀ rest, kinds ≠ .greater :: rest) : behindItem? n kinds = none := by
  unfold behindItem?
  split <;> simp_all

/-- The items of a list, one thing behind the other. -/
theorem afterItems?_identifier : afterItems? (n + 1) (.identifier :: rest) =
    (afterSegments? rest).bind fun afterName =>
      (afterArguments? n afterName).bind (behindItem? n) := by
  rw [afterItems?]
  cases afterSegments? rest with
  | none => rfl
  | some afterName =>
    rw [Option.bind_some]
    dsimp only
    cases afterArguments? n afterName with
    | none => rfl
    | some kinds =>
      rw [Option.bind_some]
      unfold behindItem?
      split <;> simp_all

end FirstKind

/-! ### What the run finds -/

theorem finds_segmentsEnd? {turns : Nat} (enough : tokens.length < index + turns)
    (inside : index ≤ tokens.length) :
    Finds tokens index (segmentsEnd? tokens turns index)
      (afterSegments? (kindsFrom tokens index)) := by
  induction turns generalizing index with
  | zero => omega
  | succ turns ih =>
    rw [segmentsEnd?]
    by_cases dot : kindAt tokens index = .dot
    · rw [if_pos dot, kindsFrom_eq_cons dot nofun]
      refine .guarded (fun identifier => ?_) fun other =>
        afterSegments?_dot (kindsFrom_ne_cons other)
      have later := lt_of_kindAt identifier nofun
      rw [kindsFrom_eq_cons identifier nofun, afterSegments?]
      exact (ih (by omega) (by omega)).weaken (by omega)
    · rw [if_neg dot, afterSegments?_other (kindsFrom_ne_cons dot)]
      exact .found (Nat.le_refl _) inside

/-- **A run by index finds what the lookahead finds.** By induction on the turns: each goes past a
token, so they last as long as tokens are left, and so does the budget of the lookahead. -/
theorem finds_ends (turns : Nat) :
    (∀ index n, tokens.length < index + turns → index ≤ tokens.length →
      tokens.length ≤ index + n →
      Finds tokens index (itemsEnd? tokens turns index) (afterItems? n (kindsFrom tokens index))) ∧
    ∀ index n, tokens.length < index + turns → index ≤ tokens.length →
      tokens.length ≤ index + n →
      Finds tokens index (argumentsEnd? tokens turns index)
        (afterArguments? n (kindsFrom tokens index)) := by
  induction turns with
  | zero =>
    constructor
    · intro index n enough inside
      omega
    · intro index n enough inside
      omega
  | succ turns ih =>
    obtain ⟨items, arguments⟩ := ih
    constructor
    · intro index n enough inside budget
      rw [itemsEnd?]
      refine .guarded (fun identifier => ?_) fun other =>
        afterItems?_other (kindsFrom_ne_cons other)
      have here := lt_of_kindAt identifier nofun
      obtain ⟨n, rfl⟩ : ∃ m, n = m + 1 := ⟨n - 1, by omega⟩
      rw [kindsFrom_eq_cons identifier nofun, afterItems?_identifier]
      have segments : Finds tokens (index + 1) (segmentsEnd? tokens turns (index + 1)) _ :=
        finds_segmentsEnd? (by omega) here
      refine (segments.bind fun afterName behind inside => ?_).weaken (Nat.le_succ index)
      have list := (arguments afterName n (by omega) inside (by omega)).weaken behind
      refine list.bind fun afterItem behind inside => ?_
      by_cases comma : kindAt tokens afterItem = .comma
      · have onComma := lt_of_kindAt comma nofun
        rw [if_pos comma, kindsFrom_eq_cons comma nofun]
        by_cases greater : kindAt tokens (afterItem + 1) = .greater
        · have onGreater := lt_of_kindAt greater nofun
          rw [if_pos greater, kindsFrom_eq_cons greater nofun]
          exact .found (by omega) onGreater
        · rw [if_neg greater, behindItem?_comma (kindsFrom_ne_cons greater)]
          exact (items (afterItem + 1) n (by omega) onComma (by omega)).weaken (by omega)
      · rw [if_neg comma]
        refine .guarded (fun greater => ?_) fun other =>
          behindItem?_other (kindsFrom_ne_cons comma) (kindsFrom_ne_cons other)
        have onGreater := lt_of_kindAt greater nofun
        rw [kindsFrom_eq_cons greater nofun]
        exact .found (by omega) onGreater
    · intro index n enough inside budget
      rw [argumentsEnd?]
      by_cases less : kindAt tokens index = .less
      · have here := lt_of_kindAt less nofun
        obtain ⟨n, rfl⟩ : ∃ m, n = m + 1 := ⟨n - 1, by omega⟩
        rw [if_pos less, kindsFrom_eq_cons less nofun, afterArguments?]
        exact (items (index + 1) n (by omega) here (by omega)).weaken (Nat.le_succ index)
      · rw [if_neg less, afterArguments?_other (kindsFrom_ne_cons less)]
        exact .found (Nat.le_refl _) inside

theorem length_kindsFrom (tokens : List Token) (index : Nat) :
    (kindsFrom tokens index).length = tokens.length - index := by
  rw [kindsFrom, List.length_map, List.length_drop]

/-- What a run by index finds is the index where what the lookahead leaves begins. -/
theorem Finds.eq {x : OptionT Option Nat} {left : Option (List Kind)}
    (finds : Finds tokens start x left) :
    x = .mk (some (left.map fun rest => tokens.length - rest.length)) := by
  cases finds with
  | @found index _ inside =>
    rw [Option.map_some, length_kindsFrom, Nat.sub_sub_self inside]
    rfl
  | nothing => rfl

/-- **The run by index ends** within as many turns as there are tokens, and finds what the lookahead
finds. -/
theorem listEnd?_eq {turns : Nat} (enough : tokens.length ≤ turns) (start : Nat) :
    listEnd? tokens turns start = .mk (some (argumentListEnd? tokens start)) := by
  have finds : Finds tokens start (listEnd? tokens turns start)
      (afterList? (kindsFrom tokens start)) := by
    refine .guarded (fun less => ?_) fun other => ?_
    · have here := lt_of_kindAt less nofun
      rw [kindsFrom_eq_cons less nofun, afterList?, length_kindsFrom]
      have items := (@finds_ends tokens turns).1 (start + 1) (tokens.length - (start + 1))
      exact (items (by omega) here (by omega)).weaken (Nat.le_succ start)
    · have noList := @kindsFrom_ne_cons tokens start _ other
      unfold afterList?
      split <;> simp_all
  exact finds.eq

/-! ## The recognition -/

section Recognition

variable {tokens : List Token} {start stop : Nat}

/-- Up to an index stands a list, with all its kinds. -/
def ListBetween (tokens : List Token) (start stop : Nat) : Prop :=
  stop ≤ tokens.length ∧ (tokens.extract start stop).map Token.kind ∈ Part.list.words

theorem argumentListEnd?_eq_some_iff_between :
    argumentListEnd? tokens start = some stop ↔ ListBetween tokens start stop := by
  rw [argumentListEnd?_eq_some_iff]
  constructor
  · rintro ⟨l, rest, list, kinds, rfl⟩
    have lengths := congrArg List.length kinds
    rw [List.length_map, List.length_drop, List.length_append] at lengths
    have atLeast := list.three_le_length
    refine ⟨by omega, ?_⟩
    rw [List.extract_eq_take_drop, Nat.add_sub_cancel_left, List.map_take, kinds, List.take_left]
    exact list
  · rintro ⟨inside, list⟩
    rw [List.extract_eq_take_drop, List.map_take] at list
    refine ⟨_, _, list, (List.take_append_drop (stop - start) _).symm, ?_⟩
    have atLeast := list.three_le_length
    rw [List.length_take, List.length_map, List.length_drop] at atLeast ⊢
    omega

/-- A list has three tokens at least, and they stand among the tokens. -/
theorem ListBetween.bounds (list : ListBetween tokens start stop) :
    start + 2 < stop ∧ stop ≤ tokens.length := by
  obtain ⟨inside, word⟩ := list
  have atLeast := Word.three_le_length word
  rw [List.length_map, List.extract_eq_take_drop, List.length_take] at atLeast
  omega

/-- **The lookahead recognises exactly its grammar.** It finds the one index up to which a list
stands, which leaves room for three tokens at least, and it finds nothing where there is no such
index. It does so within as many turns as there are tokens. -/
theorem recognises (tokens : List Token) (start : Nat) :
    (∀ stop, argumentListEnd? tokens start = some stop ↔
      stop ≤ tokens.length ∧ (tokens.extract start stop).map Token.kind ∈ Part.list.words) ∧
    (∀ stop other, ListBetween tokens start stop → ListBetween tokens start other → stop = other) ∧
    (∀ stop, argumentListEnd? tokens start = some stop →
      start + 2 < stop ∧ stop ≤ tokens.length) ∧
    (∀ turns, tokens.length ≤ turns →
      listEnd? tokens turns start = .mk (some (argumentListEnd? tokens start))) ∧
    Part.list.words = {[.less]} * Part.items.words * {[.greater]} ∧
    Part.items.words =
      Part.item.words * ({[.comma]} * Part.item.words)∗ * (1 + {[.comma]}) ∧
    Part.item.words =
      {[.identifier]} * ({[.dot, .identifier]} : Language Kind)∗ * (1 + Part.list.words) := by
  refine ⟨fun stop => argumentListEnd?_eq_some_iff_between, fun stop other list another => ?_,
    fun stop found => (argumentListEnd?_eq_some_iff_between.1 found).bounds,
    fun turns enough => listEnd?_eq enough start, words_list, words_items, words_item⟩
  have found := argumentListEnd?_eq_some_iff_between.2 list
  rw [argumentListEnd?_eq_some_iff_between.2 another] at found
  exact (Option.some.inj found).symm

/-- Tokens of the given kinds. -/
def tokensOf (kinds : List Kind) : List Token :=
  kinds.map fun kind => ⟨kind, kind.name, default⟩

/-- A list in a list, the outer one with a comma at its end, and then an operator. -/
def nestedKinds : List Kind :=
  [.less, .identifier, .dot, .identifier, .less, .identifier, .greater, .comma, .greater, .plus]

/-- The outer list is found and is the only one. Where it is cut off, the run ends as well and finds
none. -/
theorem recognises_nested :
    ListBetween (tokensOf nestedKinds) 0 9 ∧
      (∀ other, ListBetween (tokensOf nestedKinds) 0 other → other = 9) ∧
      listEnd? (tokensOf nestedKinds) 10 0 = .mk (some (some 9)) ∧
      listEnd? (tokensOf (nestedKinds.take 8)) 8 0 = .mk (some none) := by
  have found : argumentListEnd? (tokensOf nestedKinds) 0 = some 9 := by decide
  have cutOff : argumentListEnd? (tokensOf (nestedKinds.take 8)) 0 = none := by decide
  obtain ⟨iff, unique, -, ends, -⟩ := recognises (tokensOf nestedKinds) 0
  have list := (iff 9).1 found
  refine ⟨list, fun other another => unique other 9 another list, ?_, ?_⟩
  · rw [ends 10 (by decide), found]
  · rw [(recognises (tokensOf (nestedKinds.take 8)) 0).2.2.2.1 8 (by decide), cutOff]

end Recognition

end FrontEnd.Lookahead

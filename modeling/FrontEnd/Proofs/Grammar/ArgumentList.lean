import FrontEnd.Grammar.Lookahead

/-!
# The grammar of argument lists

The words of a list of type arguments, as the kinds of its tokens:

    list  ::= "<" items ">"
    items ::= item | item "," | item "," items
    item  ::= identifier | identifier list | identifier "." item

**The law** (`Lookahead.afterList?_eq_some_iff`): the lookahead finds what follows exactly those
beginnings of a sequence that are a list in full, so there is at most one. The bound of its
recursion is never met on the way.
-/

namespace FrontEnd.Lookahead

open Token

/-- The parts that an argument list is made of. -/
inductive Part where
  | list | items | item

/-- **The words of argument lists** and their parts. -/
inductive Word : Part → List Kind → Prop
  | list {w : List Kind} : Word .items w → Word .list (.less :: (w ++ [.greater]))
  | last {i : List Kind} : Word .item i → Word .items i
  | trailing {i : List Kind} : Word .item i → Word .items (i ++ [.comma])
  | more {i w : List Kind} : Word .item i → Word .items w → Word .items (i ++ .comma :: w)
  | plain : Word .item [.identifier]
  | applied {l : List Kind} : Word .list l → Word .item (.identifier :: l)
  | dotted {i : List Kind} : Word .item i → Word .item (.identifier :: .dot :: i)

/-- What stands behind an item. -/
inductive Closes : List Kind → Prop
  | comma {after : List Kind} : Closes (.comma :: after)
  | greater {after : List Kind} : Closes (.greater :: after)

theorem Word.item_eq_cons {i : List Kind} (h : Word .item i) : ∃ tail, i = .identifier :: tail := by
  cases h with
  | plain => exact ⟨_, rfl⟩
  | applied => exact ⟨_, rfl⟩
  | dotted => exact ⟨_, rfl⟩

theorem Word.items_eq_cons {w : List Kind} (h : Word .items w) :
    ∃ tail, w = .identifier :: tail := by
  cases h with
  | last item => exact item.item_eq_cons
  | trailing item =>
    obtain ⟨tail, rfl⟩ := item.item_eq_cons
    exact ⟨_, rfl⟩
  | more item _ =>
    obtain ⟨tail, rfl⟩ := item.item_eq_cons
    exact ⟨_, rfl⟩

/-! ## Every word is found -/

/-- What the lookahead makes of the words of a part, whatever follows them. -/
def Part.Seen : Part → List Kind → Prop
  | .list, l => ∀ n rest, l.length ≤ n → afterArguments? n (l ++ rest) = some rest
  | .items, w => ∀ n rest, w.length ≤ n → afterItems? n (w ++ .greater :: rest) = some rest
  | .item, i => ∀ n rest, i.length ≤ n + 1 → Closes rest → ∃ tail afterName,
      i = .identifier :: tail ∧ afterSegments? (tail ++ rest) = some afterName ∧
        afterArguments? n afterName = some rest

theorem afterSegments?_of_closes {rest : List Kind} (closes : Closes rest) :
    afterSegments? rest = some rest := by
  cases closes <;> simp [afterSegments?]

theorem afterArguments?_of_closes {n : Nat} {rest : List Kind} (closes : Closes rest) :
    afterArguments? n rest = some rest := by
  cases closes <;> cases n <;> simp [afterArguments?]

section Behind

variable {i rest : List Kind} {n : Nat}

theorem afterItems?_last (seen : Part.item.Seen i) (enough : i.length ≤ n + 1) :
    afterItems? (n + 1) (i ++ .greater :: rest) = some rest := by
  obtain ⟨tail, afterName, rfl, segments, arguments⟩ := seen n (.greater :: rest) enough .greater
  rw [List.cons_append, afterItems?, segments]
  simp only [arguments]

theorem afterItems?_trailing (seen : Part.item.Seen i) (enough : i.length ≤ n + 1) :
    afterItems? (n + 1) (i ++ .comma :: .greater :: rest) = some rest := by
  obtain ⟨tail, afterName, rfl, segments, arguments⟩ :=
    seen n (.comma :: .greater :: rest) enough .comma
  rw [List.cons_append, afterItems?, segments]
  simp only [arguments]

theorem afterItems?_more (seen : Part.item.Seen i) (enough : i.length ≤ n + 1) :
    afterItems? (n + 1) (i ++ .comma :: .identifier :: rest) =
      afterItems? n (.identifier :: rest) := by
  obtain ⟨tail, afterName, rfl, segments, arguments⟩ :=
    seen n (.comma :: .identifier :: rest) enough .comma
  rw [List.cons_append, afterItems?, segments]
  simp only [arguments]

end Behind

/-- **Every word is found**, by induction on how it is made. -/
theorem Word.seen {p : Part} {w : List Kind} (h : Word p w) : p.Seen w := by
  induction h with
  | list _ ih =>
    intro n rest enough
    cases n with
    | zero => simp at enough
    | succ n =>
      rw [List.cons_append, afterArguments?, List.append_assoc]
      refine ih n rest ?_
      rw [List.length_cons, List.length_append] at enough
      omega
  | last item ih =>
    intro n rest enough
    obtain ⟨tail, rfl⟩ := item.item_eq_cons
    cases n with
    | zero => simp at enough
    | succ n => exact afterItems?_last ih (by omega)
  | trailing item ih =>
    intro n rest enough
    rw [List.length_append, List.length_singleton] at enough
    cases n with
    | zero => omega
    | succ n =>
      rw [List.append_assoc]
      exact afterItems?_trailing ih (by omega)
  | more item items ih ihMore =>
    intro n rest enough
    rw [List.length_append, List.length_cons] at enough
    obtain ⟨tail, rfl⟩ := items.items_eq_cons
    cases n with
    | zero => omega
    | succ n =>
      rw [List.append_assoc]
      exact (afterItems?_more ih (by omega)).trans (ihMore n rest (by omega))
  | plain =>
    intro n rest _ closes
    exact ⟨[], rest, rfl, afterSegments?_of_closes closes, afterArguments?_of_closes closes⟩
  | applied list ih =>
    intro n rest enough closes
    cases list with
    | list items => exact ⟨_, _, rfl, rfl, ih n rest (Nat.le_of_succ_le_succ enough)⟩
  | dotted item ih =>
    intro n rest enough closes
    rw [List.length_cons, List.length_cons] at enough
    obtain ⟨tail, afterName, rfl, segments, arguments⟩ := ih n rest (by omega) closes
    exact ⟨_, afterName, rfl, segments, arguments⟩

/-! ## Only words are found -/

/-- The identifiers behind points make a longer item. -/
theorem word_of_afterSegments? {kinds l rest : List Kind} (base : Word .item (.identifier :: l))
    (found : afterSegments? kinds = some (l ++ rest)) :
    ∃ i, Word .item i ∧ .identifier :: kinds = i ++ rest := by
  fun_induction afterSegments? kinds with
  | case1 kinds ih =>
    obtain ⟨i, item, split⟩ := ih found
    exact ⟨_, .dotted item, by rw [split]; rfl⟩
  | case2 => cases found
  | case3 kinds =>
    cases found
    exact ⟨_, base, rfl⟩

/-- A dotted name and the list behind it, if there is one, are an item. -/
theorem word_of_segments {n : Nat} {kinds afterName behind : List Kind}
    (arguments : ∀ kinds rest, afterArguments? n kinds = some rest →
      kinds = rest ∨ ∃ l, Word .list l ∧ kinds = l ++ rest)
    (segments : afterSegments? kinds = some afterName)
    (found : afterArguments? n afterName = some behind) :
    ∃ i, Word .item i ∧ .identifier :: kinds = i ++ behind := by
  rcases arguments _ _ found with rfl | ⟨l, list, rfl⟩
  · rw [← List.nil_append afterName] at segments
    exact word_of_afterSegments? .plain segments
  · exact word_of_afterSegments? (.applied list) segments

/-- **Only words are found**: what is passed over on the way are items, or a list, or nothing. -/
theorem word_of_after (n : Nat) :
    (∀ kinds rest, afterItems? n kinds = some rest →
      ∃ w, Word .items w ∧ kinds = w ++ .greater :: rest) ∧
    ∀ kinds rest, afterArguments? n kinds = some rest →
      kinds = rest ∨ ∃ l, Word .list l ∧ kinds = l ++ rest := by
  induction n with
  | zero =>
    constructor
    · intro kinds rest found
      simp [afterItems?] at found
    · intro kinds rest found
      unfold afterArguments? at found
      split at found
      next same => cases same
      next => cases found
      next =>
        cases found
        exact .inl rfl
  | succ n ih =>
    obtain ⟨items, arguments⟩ := ih
    constructor
    · intro kinds rest found
      unfold afterItems? at found
      split at found
      next m tail same =>
        cases same
        split at found
        · cases found
        next afterName segments =>
          have item := fun {behind} => @word_of_segments n tail afterName behind arguments segments
          split at found
          next behind found' =>
            cases found
            obtain ⟨i, word, split⟩ := item found'
            exact ⟨_, .trailing word, by rw [split, List.append_assoc]; rfl⟩
          next more _ found' =>
            obtain ⟨i, word, split⟩ := item found'
            obtain ⟨w, words, rfl⟩ := items _ _ found
            exact ⟨_, .more word words, by rw [split, List.append_assoc]; rfl⟩
          next behind found' =>
            cases found
            obtain ⟨i, word, split⟩ := item found'
            exact ⟨i, .last word, split⟩
          next => cases found
      next => cases found
    · intro kinds rest found
      unfold afterArguments? at found
      split at found
      next m tail same =>
        cases same
        obtain ⟨w, word, rfl⟩ := items _ _ found
        exact .inr ⟨_, .list word, by simp⟩
      next => cases found
      next =>
        cases found
        exact .inl rfl

/-- **The lookahead finds what follows a list** exactly where a list stands in full. -/
theorem afterList?_eq_some_iff {kinds rest : List Kind} :
    afterList? kinds = some rest ↔ ∃ l, Word .list l ∧ kinds = l ++ rest := by
  constructor
  · intro found
    unfold afterList? at found
    split at found
    next tail =>
      obtain ⟨w, words, rfl⟩ := (word_of_after _).1 _ _ found
      exact ⟨_, .list words, by simp⟩
    next => cases found
  · rintro ⟨l, list, rfl⟩
    cases list with
    | @list w words =>
      rw [List.cons_append, List.append_assoc, afterList?]
      exact words.seen _ rest (by simp)

/-- A list has at least one item. -/
theorem Word.three_le_length {l : List Kind} (h : Word .list l) : 3 ≤ l.length := by
  cases h with
  | list items =>
    obtain ⟨tail, rfl⟩ := items.items_eq_cons
    simp

end FrontEnd.Lookahead

import FrontEnd.Proofs.Grammar.Consuming
import FrontEnd.Proofs.Grammar.YieldingName

/-!
# How names are spelled

A name that is printed has one spelling, but a name may be written with a comma behind the last of
its arguments, and tokens that no text was scanned to may have any texts. Here all sequences of
lexemes are told that the parser reads as a name, with the name that it reads:

    name    ::= segment further
    further ::= nothing | "." segment further
    segment ::= identifier | identifier "<" items ">"
    items   ::= nothing | name | name "," items

where the items between brackets have to be what the lookahead takes for the items of a list. What a
spelling leaves open is the numbers and the places of the segments.

**The laws** (`Parse.consumes_name`, `Parse.yields_spelled`): the lexemes that the action for names
takes spell the name it gives; and from lexemes that spell a name this name is yielded, wherever
neither a list nor a point stands behind them.
-/

namespace FrontEnd

open Token Lexeme Lookahead

/-- **The parts that a name is spelled from**: a segment, the segments behind the first, the name,
and the names in a list of arguments. -/
inductive Phrase where
  | segment (segment : Segment)
  | further (segments : List Segment)
  | name (name : Name)
  | items (names : List Name)

/-- **Lexemes spell a phrase.** -/
inductive Spelled : List Lexeme → Phrase → Prop
  | plain {id : Nat} {text : String} {span : Span} :
    Spelled [named text] (.segment ⟨id, text, [], span⟩)
  | applied {id : Nat} {text opening closing : String} {word : List Lexeme} {names : List Name}
      {span : Span} : Spelled word (.items names) → Word .items (word.map Prod.fst) →
    Spelled (named text :: (.less, opening) :: (word ++ [(.greater, closing)]))
      (.segment ⟨id, text, names, span⟩)
  | last : Spelled [] (.further [])
  | dotted {point : String} {u v : List Lexeme} {segment : Segment} {rest : List Segment} :
    Spelled u (.segment segment) → Spelled v (.further rest) →
    Spelled ((.dot, point) :: (u ++ v)) (.further (segment :: rest))
  | name {u v : List Lexeme} {first : Segment} {rest : List Segment} {span : Span} :
    Spelled u (.segment first) → Spelled v (.further rest) →
    Spelled (u ++ v) (.name ⟨first :: rest, span⟩)
  | empty : Spelled [] (.items [])
  | item {u : List Lexeme} {name : Name} : Spelled u (.name name) → Spelled u (.items [name])
  | more {comma : String} {u v : List Lexeme} {name : Name} {rest : List Name} :
    Spelled u (.name name) → Spelled v (.items rest) →
    Spelled (u ++ (.comma, comma) :: v) (.items (name :: rest))

/-- What the lookahead makes of an identifier: no segment yet, or a segment with its arguments. -/
def Identifier.SpelledBy (word : List Lexeme) : Identifier → Prop
  | .plain text _ => word = [named text]
  | .applied segment => Spelled word (.segment segment)

/-- A list between brackets is the items between them. -/
theorem word_items_of_list {word : List Kind} (h : Word .list (.less :: (word ++ [.greater]))) :
    Word .items word := by
  generalize same : Kind.less :: (word ++ [.greater]) = l at h
  cases h with
  | list items => rwa [List.append_cancel_right (List.cons.inj same).2]

namespace Parse

/-! ## What is taken spells what is given -/

variable {name : Parse Name} {c : Cursor} {n : Nat}

/-- An item of a list is a name, with a comma behind it or in front of the closing bracket. -/
theorem run_listItem {value : Name} {c' : Cursor} (run : listItem name c = .ok value c') :
    ∃ between, name c = .ok value between ∧
      (between.kind = .comma ∧ c' = between.next ∨ between.kind = .greater ∧ c' = between) := by
  obtain ⟨found, between, nameRun, restRun⟩ := bind_eq_ok.1 run
  obtain ⟨_, behind, separatorRun, pureRun⟩ := bind_eq_ok.1 restRun
  obtain ⟨rfl, rfl⟩ := pure_eq_ok.1 pureRun
  refine ⟨between, nameRun, ?_⟩
  unfold separator at separatorRun
  rw [get_bind] at separatorRun
  split at separatorRun
  next isComma =>
    cases separatorRun
    exact .inl ⟨isComma, rfl⟩
  next =>
    split at separatorRun
    next isClosing =>
      cases separatorRun
      exact .inr ⟨isClosing, rfl⟩
    next => cases separatorRun

section Taking

variable (each : ∀ c : Cursor, c.left.length ≤ n →
    Consumes name (fun taken found => Spelled (taken.map Token.lexeme) (.name found)) c)

include each

/-- **The items of a list are spelled** by what is taken, by induction on their number. -/
theorem consumes_listItems (k : Nat) (few : c.left.length ≤ n) :
    Consumes (listItems name k)
      (fun taken names => Spelled (taken.map Token.lexeme) (.items names)) c := by
  induction k generalizing c with
  | zero => exact .look (.ite (fun _ => .halt) fun _ => .pure .empty)
  | succ k ih =>
    refine .look (.ite (fun _ => .of_runs fun ends names c' run => ?_) fun _ => .pure .empty)
    obtain ⟨first, behind, itemRun, restRun⟩ := bind_eq_ok.1 run
    obtain ⟨rest, _, itemsRun, pureRun⟩ := bind_eq_ok.1 restRun
    obtain ⟨rfl, rfl⟩ := pure_eq_ok.1 pureRun
    obtain ⟨between, nameRun, follows⟩ := run_listItem itemRun
    obtain ⟨endsBetween, taken, left, spelled⟩ := (each c few).of_eq_ok ends nameRun
    have fewer : between.left.length ≤ n := Cursor.few_of_left few left
    rcases follows with ⟨isComma, rfl⟩ | ⟨isClosing, rfl⟩
    · have more := endsBetween.ahead_ne_nil (by rw [isComma]; nofun)
      have leftThen := Cursor.left_next more
      have fewNext : between.next.left.length ≤ n := by
        rw [leftThen, List.length_cons] at fewer
        omega
      obtain ⟨endsThen, later, leftLater, spelledLater⟩ :=
        (ih fewNext).of_eq_ok endsBetween.next itemsRun
      refine ⟨endsThen, taken ++ between.current :: later, ?_, ?_⟩
      · rw [left, leftThen, leftLater]
        simp
      · have comma : between.current.lexeme = (.comma, between.current.text) :=
          congrArg (·, between.current.text) isComma
        change Spelled ((taken ++ between.current :: later).map Token.lexeme) _
        rw [List.map_append, List.map_cons, comma]
        exact .more spelled spelledLater
    · rw [run_repeatUpTo_nil (by simp [isClosing])] at itemsRun
      cases itemsRun
      exact ⟨endsBetween, taken, left, .item spelled⟩

/-- The tokens of a list are items between brackets. -/
theorem consumes_typeArguments (few : c.left.length ≤ n) :
    Consumes (typeArguments name) (fun taken names => ∃ opening word closing,
      taken.map Token.lexeme = (.less, opening) :: (word ++ [(.greater, closing)]) ∧
        Spelled word (.items names)) c := by
  refine .bind (consumes_expect nofun) fun opening c₁ taken₁ left₁ ⟨is₁, isLess⟩ => ?_
  have few₁ : c₁.left.length ≤ n := Cursor.few_of_left few left₁
  refine .bind (.look (consumes_listItems each _ few₁)) fun names c₂ taken₂ _ spelled => ?_
  refine .bind (consumes_expect nofun) fun closing c₃ taken₃ _ ⟨is₃, isGreater⟩ => .pure ?_
  subst is₁ is₃
  refine ⟨opening.text, taken₂.map Token.lexeme, closing.text, ?_, spelled⟩
  simp [Token.lexeme, isLess, isGreater]

/-- **An identifier is spelled** by what is taken for it. Where a list of arguments opens, the
lookahead has found it, so its items are the items of a list. -/
theorem consumes_identifierOf {good : List Name → Prop} (few : c.left.length ≤ n + 1)
    (takes : ∀ l rest, Word .list l → rest ≠ [] → l.length ≤ n + 1 →
      Takes (typeArguments name) l rest good) :
    Consumes (identifierOf name)
      (fun taken found => found.SpelledBy (taken.map Token.lexeme)) c := by
  refine .bind (consumes_expect nofun) fun token c₁ taken₁ left₁ ⟨is₁, isIdentifier⟩ => ?_
  subst is₁
  have few₁ : c₁.left.length ≤ n := by
    rw [left₁] at few
    exact Nat.le_of_succ_le_succ few
  have first : token.lexeme = named token.text := congrArg (·, token.text) isIdentifier
  refine .look (.ite (fun opens => .number ?_) fun _ => .pure ?_)
  · rw [Cursor.opensArguments_eq, Option.isSome_iff_exists] at opens
    obtain ⟨rest, found⟩ := opens
    obtain ⟨l, list, kinds⟩ := afterList?_eq_some_iff.1 found
    intro ends
    have fromIndex : (c₁.tokens.drop c₁.index).map Token.kind = l ++ rest := by
      rw [← c₁.left_eq]
      exact kinds
    have more : rest ≠ [] := Cursor.Ends.behind_ne_nil (c := c₁) ends list fromIndex
    have short : l.length ≤ n + 1 := by
      have lengths := congrArg List.length kinds
      rw [List.length_map, List.length_append] at lengths
      omega
    have arguments (c : Cursor) (few : c.left.length ≤ n)
        (kinds : c.left.map Token.kind = l ++ rest) :=
      (consumes_typeArguments each few).of_takes (takes l rest list more short) kinds
    refine Consumes.bind (arguments _ few₁ kinds) (fun names c₂ taken₂ _ fit => ?_) ends
    obtain ⟨⟨opening, word, closing, lexemes, spelled⟩, isList, -⟩ := fit
    refine .bind (consumes_spanFrom _) fun span c₃ taken₃ _ none => .pure ?_
    subst none
    have items : Word .items (word.map Prod.fst) := by
      apply word_items_of_list
      have taken : taken₂.map Token.kind = (taken₂.map Token.lexeme).map Prod.fst := by
        rw [List.map_map]
        rfl
      rw [lexemes] at taken
      simp only [List.map_cons, List.map_append, List.map_nil] at taken
      rwa [← taken, isList]
    simp only [List.append_nil, List.singleton_append, List.map_cons, lexemes, first]
    exact .applied spelled items
  · simpa [Identifier.SpelledBy] using first

theorem consumes_segmentOf {good : List Name → Prop} (few : c.left.length ≤ n + 1)
    (takes : ∀ l rest, Word .list l → rest ≠ [] → l.length ≤ n + 1 →
      Takes (typeArguments name) l rest good) :
    Consumes (segmentOf name)
      (fun taken segment => Spelled (taken.map Token.lexeme) (.segment segment)) c := by
  refine .bind (consumes_identifierOf each few takes) fun found c' taken _ spelled => ?_
  cases found with
  | plain text span =>
    refine .number (.pure ?_)
    rw [List.append_nil, spelled]
    exact .plain
  | applied segment =>
    refine .pure ?_
    rw [List.append_nil]
    exact spelled

end Taking

/-- Segments behind points, in a row. -/
theorem spelled_further {taken : List Token} {segments : List Segment}
    (row : InRow (fun taken segment => ∃ point word,
      taken.map Token.lexeme = (.dot, point) :: word ∧ Spelled word (.segment segment))
      taken segments) :
    Spelled (taken.map Token.lexeme) (.further segments) := by
  induction row with
  | nil => exact .last
  | cons fit _ ih =>
    obtain ⟨point, word, lexemes, spelled⟩ := fit
    rw [List.map_append, lexemes]
    exact .dotted spelled ih

theorem consumes_nameUpTo (n : Nat) (few : c.left.length ≤ n) :
    Consumes (nameUpTo n)
      (fun taken name => Spelled (taken.map Token.lexeme) (.name name)) c := by
  induction n generalizing c with
  | zero => exact .halt
  | succ n ih =>
    have segment (c : Cursor) (few : c.left.length ≤ n + 1) :=
      consumes_segmentOf (fun c few => ih few) few fun _ _ list more short =>
        takes_argumentsUpTo list more short
    have point (c : Cursor) (few : c.left.length ≤ n + 1) (isPoint : c.kind = .dot) :
        Consumes (do let _ ← advance; segmentOf (nameUpTo n)) (fun taken segment =>
          ∃ point word, taken.map Token.lexeme = (.dot, point) :: word ∧
            Spelled word (.segment segment)) c := by
      refine .advance (by rw [isPoint]; nofun) fun left _ => ?_
      have fewer : c.next.left.length ≤ n + 1 := by
        rw [left, List.length_cons] at few
        omega
      refine (segment _ fewer).weaken fun taken segment spelled => ?_
      refine ⟨c.current.text, taken.map Token.lexeme, ?_, spelled⟩
      rw [List.map_cons, Token.lexeme, ← Cursor.kind, isPoint]
    refine .bind consumes_here fun start c₁ taken₁ left₁ none => ?_
    subst none
    rw [List.nil_append] at left₁
    refine .bind (segment _ (left₁ ▸ few)) fun first c₂ taken₂ left₂ spelled => ?_
    have few₂ : c₂.left.length ≤ n + 1 := Cursor.few_of_left (left₁ ▸ few) left₂
    have further : Consumes (repeatWhile (fun c => c.kind = .dot)
        (do let _ ← advance; segmentOf (nameUpTo n))) (InRow _) c₂ :=
      consumes_repeatWhile Cursor.few_of_left few₂ fun c few isPoint =>
        point c few (of_decide_eq_true isPoint)
    refine .bind further fun rest c₃ taken₃ _ row => ?_
    refine .bind (consumes_spanFrom _) fun span c₄ taken₄ _ none => .pure ?_
    subst none
    rw [List.nil_append, List.append_nil, List.append_nil, List.map_append]
    exact .name spelled (spelled_further row)

/-- **What is taken for a name spells it.** -/
theorem consumes_name :
    Consumes Parse.name (fun taken name => Spelled (taken.map Token.lexeme) (.name name)) c :=
  .look (consumes_nameUpTo _ (Nat.le_refl _))

theorem consumes_identifier :
    Consumes identifier (fun taken found => found.SpelledBy (taken.map Token.lexeme)) c :=
  consumes_identifierOf (fun _ _ => consumes_name) (Nat.le_succ _) fun _ _ list more _ =>
    takes_itemArguments list more

theorem consumes_segment :
    Consumes segment (fun taken segment => Spelled (taken.map Token.lexeme) (.segment segment)) c :=
  consumes_segmentOf (fun _ _ => consumes_name) (Nat.le_succ _) fun _ _ list more _ =>
    takes_itemArguments list more

/-! ## What is spelled is yielded -/

end Parse

/-- A segment is spelled with its text first. -/
theorem Spelled.first_segment {word : List Lexeme} {segment : Segment}
    (h : Spelled word (.segment segment)) : first word = some .identifier := by
  cases h <;> rfl

theorem Spelled.first_name {word : List Lexeme} {name : Name} (h : Spelled word (.name name)) :
    first word = some .identifier := by
  cases h with
  | name segment _ => exact first_append segment.first_segment

/-- A segment on its own is a name. -/
theorem Spelled.single {word : List Lexeme} {segment : Segment}
    (h : Spelled word (.segment segment)) (span : Span) :
    Spelled word (.name ⟨[segment], span⟩) := by
  rw [← List.append_nil word]
  exact .name h .last

/-- Behind a segment no list begins but its own. -/
theorem Spelled.noList_further {word rest : List Lexeme} {segments : List Segment}
    (h : Spelled word (.further segments)) (noList : afterList? (rest.map Prod.fst) = none) :
    afterList? ((word ++ rest).map Prod.fst) = none := by
  cases h with
  | last => exact noList
  | dotted => rfl

/-- **What the actions yield from the spelling of a phrase**, up to numbers and places, where their
bounds are no smaller than the spelling. -/
def Phrase.Yielded : Phrase → List Lexeme → Prop
  | .segment s, word => ∀ n rest, word.length ≤ n + 1 → afterList? (rest.map Prod.fst) = none →
    Yields (Parse.segmentOf (Parse.nameUpTo n)) word rest fun found =>
      found.relabel .erase = s.relabel .erase
  | .further ss, word => ∀ n k rest, word.length ≤ n → word.length ≤ k →
    afterList? (rest.map Prod.fst) = none → first rest ≠ some .dot →
    Yields (Parse.repeatUpTo (fun c => c.kind = .dot)
      (do let _ ← Parse.advance; Parse.segmentOf (Parse.nameUpTo n)) k) word rest fun found =>
        found.map (Segment.relabel .erase) = ss.map (Segment.relabel .erase)
  | .name whole, word => ∀ n rest, word.length ≤ n → afterList? (rest.map Prod.fst) = none →
    first rest ≠ some .dot →
    Yields (Parse.nameUpTo n) word rest fun found => found.relabel .erase = whole.relabel .erase
  | .items names, word => ∀ n k rest, word.length ≤ n → word.length ≤ k →
    first rest = some .greater →
    Yields (Parse.listItems (Parse.nameUpTo n) k) word rest fun found =>
      found.map (Name.relabel .erase) = names.map (Name.relabel .erase)

namespace Parse

/-- A list between brackets is yielded, where its items are. -/
theorem yields_list {word rest : List Lexeme} {opening closing : String} {names : List Name}
    {n : Nat} (items : (Phrase.items names).Yielded word) (few : word.length ≤ n) :
    Yields (typeArguments (nameUpTo n)) ((.less, opening) :: (word ++ [(.greater, closing)])) rest
      fun found => found.map (Name.relabel .erase) = names.map (Name.relabel .erase) := by
  refine .token yields_expect fun _ _ => ?_
  have separated : Yields (separated .greater (nameUpTo n)) word ([(.greater, closing)] ++ rest)
      fun found => found.map (Name.relabel .erase) = names.map (Name.relabel .erase) := by
    exact .look fun c lexemes => items n _ _ few (Cursor.length_le_of_lexemes lexemes) rfl
  exact .bind separated fun found same => .token yields_expect fun _ _ => .pure same

/-- An item with a comma behind it. -/
theorem yields_listItem_comma {word rest : List Lexeme} {comma : String} {name : Parse Name}
    {good : Name → Prop} (each : Yields name word ([(.comma, comma)] ++ rest) good) :
    Yields (listItem name) (word ++ [(.comma, comma)]) rest good := by
  have separated : Yields (separator .greater) [(.comma, comma)] rest fun _ => True := by
    refine .look fun c lexemes => ?_
    rw [if_pos (Cursor.kind_of_lexemes lexemes rfl)]
    exact .token yields_advance fun _ _ => .pure trivial
  exact .bind each fun _ isGood => .whole separated fun _ _ => .pure isGood

/-- **What is spelled is yielded**, by induction on how it is spelled. -/
theorem yielded_of_spelled {word : List Lexeme} {phrase : Phrase} (h : Spelled word phrase) :
    phrase.Yielded word := by
  induction h with
  | @plain id text span =>
    intro n rest _ noList
    refine .whole (yields_identifierOf_plain noList) fun found isPlain => ?_
    obtain ⟨place, rfl⟩ := isPlain
    exact .still yields_freshId fun id _ => .pure (Segment.erase_eq_iff.2 ⟨rfl, rfl⟩)
  | @applied id text opening closing word names span _ isItems ih =>
    intro n rest enough noList
    have few : word.length ≤ n := by
      simp only [List.length_cons, List.length_append, List.length_nil] at enough
      omega
    have list : Word .list (((Kind.less, opening) :: (word ++ [(Kind.greater, closing)])).map
        Prod.fst) := by
      rw [List.map_cons, List.map_append]
      exact .list isItems
    refine .whole (yields_identifierOf_applied list (yields_list ih few)) fun found isApplied => ?_
    obtain ⟨segment, rfl, sameText, same⟩ := isApplied
    exact .pure (Segment.erase_eq_iff.2 ⟨sameText, same⟩)
  | last =>
    intro n k rest _ _ _ noPoint
    refine yields_repeatUpTo_nil fun c lexemes => ?_
    exact decide_eq_false (Cursor.ne_of_lexemes lexemes noPoint)
  | @dotted point u v segment further spelled behind ih ihBehind =>
    intro n k rest few enough noList noPoint
    simp only [List.length_cons, List.length_append] at few enough
    cases k with
    | zero => omega
    | succ k =>
      have here : Yields (do let _ ← advance; segmentOf (nameUpTo n)) ((.dot, point) :: u)
          (v ++ rest) fun found => found.relabel .erase = segment.relabel .erase :=
        .token yields_advance fun _ _ =>
          ih n _ (by omega) (behind.noList_further noList)
      have later := ihBehind n k rest (by omega) (by omega) noList noPoint
      exact yields_repeatUpTo_cons
        (fun c lexemes => decide_eq_true (Cursor.kind_of_lexemes lexemes rfl)) here later
  | @name u v segment further span spelled behind ih ihBehind =>
    intro n rest few noList noPoint
    have some := List.length_pos_iff.2 (ne_nil_of_first spelled.first_segment)
    rw [List.length_append] at few
    cases n with
    | zero => omega
    | succ n =>
      have later : Yields (repeatWhile (fun c => c.kind = .dot)
          (do let _ ← advance; segmentOf (nameUpTo n))) v rest fun found =>
          found.map (Segment.relabel .erase) = further.map (Segment.relabel .erase) := by
        refine .look fun c lexemes => ihBehind n _ rest (by omega) ?_ noList noPoint
        exact Cursor.length_le_of_lexemes lexemes
      refine .still yields_here fun start _ => ?_
      refine .bind (ih n _ (by omega) (behind.noList_further noList)) fun found same => ?_
      refine .whole later fun others areSame => .still (yields_spanFrom _) fun _ _ => .pure ?_
      rw [Name.erase_eq_iff, List.map_cons, List.map_cons, same, areSame]
  | empty =>
    intro n k rest _ _ closes
    refine yields_repeatUpTo_nil fun c lexemes => ?_
    simp [Cursor.kind_of_lexemes lexemes closes]
  | @item u name spelled ih =>
    intro n k rest few enough closes
    have some := List.length_pos_iff.2 (ne_nil_of_first spelled.first_name)
    have here : Yields (listItem (nameUpTo n)) u ([] ++ rest) fun found =>
        found.relabel .erase = name.relabel .erase :=
      .whole (ih n _ few (afterList?_eq_none (ne_of_first closes nofun)) (ne_of_first closes nofun))
        fun found same => .still (yields_separator_closing nofun closes) fun _ _ => .pure same
    cases k with
    | zero => omega
    | succ k =>
      rw [← List.append_nil u]
      refine yields_repeatUpTo_cons (fun c lexemes => ?_) here
        (yields_repeatUpTo_nil fun c lexemes => ?_)
      · simp [Cursor.kind_of_lexemes lexemes (first_append spelled.first_name)]
      · simp [Cursor.kind_of_lexemes lexemes closes]
  | @more comma u v name others spelled _ ih ihOthers =>
    intro n k rest few enough closes
    simp only [List.length_cons, List.length_append] at few enough
    cases k with
    | zero => omega
    | succ k =>
      have here : Yields (listItem (nameUpTo n)) (u ++ [(.comma, comma)]) (v ++ rest) fun found =>
          found.relabel .erase = name.relabel .erase :=
        yields_listItem_comma (ih n _ (by omega) rfl (ne_of_first rfl nofun))
      rw [List.append_cons]
      refine yields_repeatUpTo_cons (fun c lexemes => ?_) here
        (ihOthers n k rest (by omega) (by omega) closes)
      rw [List.append_assoc] at lexemes
      simp [Cursor.kind_of_lexemes lexemes (first_append spelled.first_name)]

/-- **A name is yielded from what spells it**, where neither a list nor a point follows. -/
theorem yields_spelled {word rest : List Lexeme} {name : Name} (h : Spelled word (.name name))
    (noList : afterList? (rest.map Prod.fst) = none) (noPoint : first rest ≠ some .dot) :
    Yields Parse.name word rest fun found => found.relabel .erase = name.relabel .erase := by
  refine .look fun c lexemes => yielded_of_spelled h _ rest ?_ noList noPoint
  exact Cursor.length_le_of_lexemes lexemes

/-- **A name is parsed** where it is spelled, and what stands behind it is left. -/
theorem run_name_of_spelled (ends : c.Ends) {front behind : List Token}
    (left : c.left = front ++ behind) {whole : Name}
    (spelled : Spelled (front.map Token.lexeme) (.name whole)) (more : behind ≠ [])
    (noList : afterList? (behind.map Token.kind) = none)
    (noPoint : first (behind.map Token.lexeme) ≠ some .dot) :
    ∃ found c', Parse.name c = .ok found c' ∧ c'.left = behind ∧
      found.relabel .erase = whole.relabel .erase := by
  have lexemes : c.left.map Token.lexeme = front.map Token.lexeme ++ behind.map Token.lexeme := by
    rw [left, List.map_append]
  have noListIn : afterList? ((behind.map Token.lexeme).map Prod.fst) = none := by
    rw [List.map_map]
    exact noList
  obtain ⟨found, c', run, after, same⟩ :=
    (yields_spelled spelled noListIn noPoint).run (by simpa using more) lexemes
  obtain ⟨-, taken, leftToo, -⟩ := consumes_name.of_eq_ok ends run
  rw [left] at leftToo
  have lengths := congrArg List.length after
  rw [List.length_map, List.length_map] at lengths
  exact ⟨found, c', run, (List.append_inj' leftToo lengths.symm).2.symm, same⟩

end Parse

end FrontEnd

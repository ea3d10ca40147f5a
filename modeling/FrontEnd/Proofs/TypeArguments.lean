import FrontEnd.Proofs.Grammar.Entering
import FrontEnd.Proofs.Grammar.ProgressFile
import FrontEnd.Proofs.Grammar.Spelling

/-!
# Types as type arguments

A type is a name, and so is an argument of a type. The action for arguments takes any name, but it
is entered only where the lookahead has found a list, and the items of a list have arguments behind
their last segment only: `a.b<c>` can stand between brackets, and `a<b>.c` cannot.

**The law** (`Parse.name_as_argument`): from a name in brackets behind an identifier, a type with
this name as its only argument is parsed to the end, if only the last segment of the name has
arguments. Otherwise the identifier is parsed without arguments, and the brackets are left.
-/

namespace FrontEnd

open Token Lexeme Lookahead

/-- **A name nests**, if only its last segment has arguments. -/
def Name.Nests (name : Name) : Prop :=
  ∀ front ∈ name.segments.dropLast, front.arguments = []

/-- Whether a name nests depends neither on numbers nor on places. -/
theorem Name.Nests.of_erase {m n : Name} (h : m.Nests)
    (same : m.relabel .erase = n.relabel .erase) : n.Nests := by
  intro front mem
  have fronts := congrArg List.dropLast (Name.erase_eq_iff.1 same)
  rw [← List.map_dropLast, ← List.map_dropLast] at fronts
  have image : front.relabel .erase ∈ n.segments.dropLast.map (Segment.relabel .erase) :=
    List.mem_map_of_mem mem
  rw [← fronts] at image
  obtain ⟨other, isOther, alike⟩ := List.mem_map.1 image
  have arguments := (Segment.erase_eq_iff.1 alike).2
  rw [h other isOther, List.map_nil] at arguments
  exact List.map_eq_nil_iff.1 arguments.symm

namespace Spelled

variable {u v word : List Lexeme} {segment : Segment}

/-- A segment without arguments is spelled by its text. -/
theorem eq_named (h : Spelled word (.segment segment)) (plain : segment.arguments = []) :
    word = [named segment.text] := by
  cases h with
  | plain => rfl
  | applied items isItems =>
    cases plain
    cases items
    obtain ⟨_, none⟩ := isItems.items_eq_cons
    cases none

/-- A segment is an item of a list. -/
theorem item_of_segment (h : Spelled word (.segment segment)) : Word .item (word.map Prod.fst) := by
  cases h with
  | plain => exact .plain
  | applied _ isItems =>
    rw [List.map_cons, List.map_cons, List.map_append]
    exact .applied (.list isItems)

/-- **The segments of a name that nests are spelled by an item of a list**, by induction on the
segments behind the first. -/
theorem item_of_segments {rest : List Segment} (first : Spelled u (.segment segment))
    (further : Spelled v (.further rest))
    (plain : ∀ front ∈ (segment :: rest).dropLast, front.arguments = []) :
    Word .item ((u ++ v).map Prod.fst) := by
  induction rest generalizing segment u v with
  | nil =>
    cases further
    rw [List.append_nil]
    exact first.item_of_segment
  | cons second rest ih =>
    cases further with
    | dotted isSecond later =>
      rw [List.dropLast_cons_cons] at plain
      obtain ⟨isPlain, others⟩ := List.forall_mem_cons.1 plain
      rw [first.eq_named isPlain]
      exact .dotted (ih isSecond later others)

theorem item_of_nests {name : Name} (h : Spelled word (.name name)) (nests : name.Nests) :
    Word .item (word.map Prod.fst) := by
  cases h with
  | name first further => exact first.item_of_segments further nests

end Spelled

namespace Parse

section Nesting

variable {word rest : List Lexeme} {opening closing : String} {found : Name} {c : Cursor}

/-- **Where a list is found around a name, the name nests**: what the parser takes for the list is
the name that is spelled there, and it is such as the items of a list are. -/
theorem nests_of_opensArguments (spelled : Spelled word (.name found)) (some : rest ≠ [])
    (ends : c.Ends)
    (lexemes : c.left.map Token.lexeme =
      (.less, opening) :: (word ++ [(.greater, closing)]) ++ rest)
    (opens : c.opensArguments = true) : found.Nests := by
  rw [Cursor.opensArguments_eq, Option.isSome_iff_exists] at opens
  obtain ⟨after, isSome⟩ := opens
  obtain ⟨l, list, kinds⟩ := afterList?_eq_some_iff.1 isSome
  have more : after ≠ [] := by
    rw [Cursor.left_eq] at kinds
    exact ends.behind_ne_nil list kinds
  have lengths := Cursor.length_of_lexemes lexemes
  have short : l.length ≤ c.left.length + 1 := by
    have total := congrArg List.length kinds
    rw [List.length_map, List.length_append] at total
    omega
  have few : word.length ≤ c.left.length := by
    simp only [List.length_append, List.length_cons] at lengths
    omega
  obtain ⟨names, _, run, -, -, -, areItems⟩ := (takes_argumentsUpTo list more short).run kinds
  obtain ⟨alike, _, again, -, same⟩ :=
    (yields_list (yielded_of_spelled (.item spelled)) few).run some lexemes
  rw [run] at again
  cases again
  obtain ⟨item, one, isFound⟩ := List.map_eq_singleton_iff.1 same
  have isItem := areItems item (one ▸ List.mem_singleton_self item)
  exact Name.Nests.of_erase isItem.arguments_of_mem_dropLast isFound

end Nesting

/-! ## A name in brackets -/

/-- **A segment on its own is parsed** where it is spelled, and what stands behind it is left. -/
theorem run_name_of_segment {c : Cursor} (ends : c.Ends) {front behind : List Token}
    (left : c.left = front ++ behind) {segment : Segment}
    (spelled : Spelled (front.map Token.lexeme) (.segment segment)) (more : behind ≠ [])
    (noList : afterList? (behind.map Token.kind) = none)
    (noPoint : first (behind.map Token.lexeme) ≠ some .dot) :
    ∃ applied c' only, name c = .ok applied c' ∧ c'.left = behind ∧ applied.segments = [only] ∧
      only.text = segment.text ∧
      only.arguments.map (Name.relabel .erase) = segment.arguments.map (Name.relabel .erase) := by
  obtain ⟨applied, c', run, left, same⟩ :=
    run_name_of_spelled ends left (spelled.single default) more noList noPoint
  obtain ⟨only, one, alike⟩ := List.map_eq_singleton_iff.1 (Name.erase_eq_iff.1 same)
  exact ⟨applied, c', only, run, left, one, Segment.erase_eq_iff.1 alike⟩

variable {type : List Token} {outer opening closing stop : Token} {found : Name} {c : Cursor}
  {firstId nextId : Nat}

/-- A name that is parsed to the end of some tokens is spelled by them. -/
theorem spelled_of_run (isEnd : stop.kind = .eof)
    (run : name (.ofTokens (type ++ [stop]) firstId) = .ok found c) (all : c.left = [stop]) :
    Spelled ((uncommented type).map Token.lexeme) (.name found) := by
  obtain ⟨-, taken, left, spelled⟩ := consumes_name.of_eq_ok (Cursor.ends_ofTokens _ _) run
  rw [Cursor.left_ofTokens_ended isEnd, all] at left
  rwa [List.append_cancel_right left]

/-- What is left where tokens in front of a bracket that closes are entered. -/
theorem left_closed (isEnd : stop.kind = .eof) (closes : closing.kind = .greater)
    (tokens : List Token) :
    (Cursor.ofTokens (tokens ++ [closing, stop]) nextId).left =
      uncommented tokens ++ [closing, stop] := by
  rw [List.append_cons, Cursor.left_ofTokens_ended isEnd, uncommented_append,
    uncommented_cons (by rw [closes]; nofun), List.append_assoc]
  rfl

/-- In front of the brackets around a name that does not nest no list is found. -/
theorem noList_of_not_nests (isEnd : stop.kind = .eof) (opens : opening.kind = .less)
    (closes : closing.kind = .greater)
    (spelled : Spelled ((uncommented type).map Token.lexeme) (.name found))
    (not : ¬ found.Nests) :
    afterList? ((opening :: uncommented type ++ [closing, stop]).map Token.kind) = none := by
  have left : (Cursor.ofTokens (opening :: type ++ [closing, stop]) 0).left =
      opening :: uncommented type ++ [closing, stop] := by
    rw [left_closed isEnd closes, uncommented_cons (by rw [opens]; nofun)]
  have isOpening : opening.lexeme = (.less, opening.text) := congrArg (·, opening.text) opens
  have isClosing : closing.lexeme = (.greater, closing.text) := congrArg (·, closing.text) closes
  have lexemes := congrArg (List.map Token.lexeme) left
  rw [List.append_cons (opening :: uncommented type), List.map_append, List.map_append,
    List.map_cons, List.map_singleton, isOpening, isClosing] at lexemes
  have closed := mt (nests_of_opensArguments spelled (List.cons_ne_nil _ _)
    (Cursor.ends_ofTokens _ _) lexemes) not
  rwa [Cursor.opensArguments_eq, left, Bool.not_eq_true, Option.isSome_eq_false_iff,
    Option.isNone_iff_eq_none] at closed

/-- A name that nests spells a segment, in brackets behind an identifier. -/
theorem spelled_applied (isOuter : outer.kind = .identifier) (opens : opening.kind = .less)
    (closes : closing.kind = .greater)
    (spelled : Spelled ((uncommented type).map Token.lexeme) (.name found))
    (nests : found.Nests) :
    Spelled ((outer :: opening :: uncommented type ++ [closing]).map Token.lexeme)
      (.segment ⟨0, outer.text, [found], default⟩) := by
  have isName : outer.lexeme = named outer.text := congrArg (·, outer.text) isOuter
  have isOpening : opening.lexeme = (.less, opening.text) := congrArg (·, opening.text) opens
  have isClosing : closing.lexeme = (.greater, closing.text) := congrArg (·, closing.text) closes
  rw [List.map_append, List.map_cons, List.map_cons, List.map_singleton, isName, isOpening,
    isClosing]
  exact .applied (.item spelled) (.last (spelled.item_of_nests nests))

/-- **A name is an argument, if it nests.** From a name in brackets behind an identifier, one
segment with this name as its only argument is parsed up to the end, if the name nests. If it does
not, one segment without arguments is parsed, and the brackets are left with all between them. -/
theorem name_as_argument (isEnd : stop.kind = .eof) (isOuter : outer.kind = .identifier)
    (opens : opening.kind = .less) (closes : closing.kind = .greater)
    (run : name (.ofTokens (type ++ [stop]) firstId) = .ok found c) (all : c.left = [stop]) :
    ∃ applied c' only,
      name (.ofTokens (outer :: opening :: type ++ [closing, stop]) nextId) = .ok applied c' ∧
      applied.segments = [only] ∧ only.text = outer.text ∧
      (found.Nests → c'.left = [stop] ∧
        ∃ argument, only.arguments = [argument] ∧
          argument.relabel .erase = found.relabel .erase) ∧
      (¬ found.Nests → c'.left = opening :: uncommented type ++ [closing, stop] ∧
        only.arguments = []) := by
  have spelled := spelled_of_run isEnd run all
  have left : (Cursor.ofTokens (outer :: opening :: type ++ [closing, stop]) nextId).left =
      outer :: opening :: uncommented type ++ [closing, stop] := by
    rw [left_closed isEnd closes, uncommented_cons (by rw [isOuter]; decide),
      uncommented_cons (by rw [opens]; decide)]
  have ends := Cursor.ends_ofTokens (outer :: opening :: type ++ [closing, stop]) nextId
  by_cases nests : found.Nests
  · have upToEnd := left.trans (List.append_cons _ closing [stop])
    obtain ⟨applied, c', only, taken, after, one, sameText, same⟩ :=
      run_name_of_segment ends upToEnd (spelled_applied isOuter opens closes spelled nests)
        (List.cons_ne_nil _ _) (by rw [List.map_singleton, isEnd]; rfl)
        (ne_of_first (congrArg some isEnd) (by decide))
    refine ⟨applied, c', only, taken, one, sameText, fun _ => ⟨after, ?_⟩, absurd nests⟩
    exact List.map_eq_singleton_iff.1 same
  · have plain : Spelled ([outer].map Token.lexeme) (.segment ⟨0, outer.text, [], default⟩) := by
      rw [List.map_singleton, Token.lexeme, isOuter]
      exact .plain
    have upToBracket := left.trans (List.singleton_append (x := outer)).symm
    obtain ⟨applied, c', only, taken, after, one, sameText, same⟩ :=
      run_name_of_segment ends upToBracket plain (List.cons_ne_nil _ _)
        (noList_of_not_nests isEnd opens closes spelled nests)
        (ne_of_first (congrArg some opens) (by decide))
    refine ⟨applied, c', only, taken, one, sameText, fun yes => absurd yes nests, fun _ => ?_⟩
    exact ⟨after, List.map_eq_nil_iff.1 same⟩

/-- A token with a lexeme, wherever it stands. -/
def placeless (lexeme : Lexeme) : Token :=
  ⟨lexeme.1, lexeme.2, default⟩

/-- The tokens of `G<` and `>` around some tokens. -/
def bracketed (type : List Token) : List Token :=
  placeless (named "G") :: placeless Kind.less.lexeme :: type ++
    [placeless Kind.greater.lexeme, .ending default]

/-- The tokens of `a.b<c>`. -/
def argumentsBehind : List Token :=
  [named "a", Kind.dot.lexeme, named "b", Kind.less.lexeme, named "c",
    Kind.greater.lexeme].map placeless

/-- The tokens of `a<b>.c`. -/
def argumentsInFront : List Token :=
  [named "a", Kind.less.lexeme, named "b", Kind.greater.lexeme, Kind.dot.lexeme,
    named "c"].map placeless

/-- `G<a.b<c>>` is parsed to the end, and of `G<a<b>.c>` only `G`. -/
theorem name_as_argument_dotted :
    (∃ applied c' only, name (.ofTokens (bracketed argumentsBehind) 0) = .ok applied c' ∧
      applied.segments = [only] ∧ c'.left = [.ending default] ∧
      ∃ argument, only.arguments = [argument] ∧ argument.path = ["a", "b"]) ∧
    ∃ applied c' only, name (.ofTokens (bracketed argumentsInFront) 0) = .ok applied c' ∧
      applied.segments = [only] ∧ c'.kind = .less ∧ only.arguments = [] := by
  constructor
  · obtain ⟨applied, c', only, run, one, -, nests, -⟩ := @name_as_argument argumentsBehind
      (placeless (named "G")) (placeless Kind.less.lexeme) (placeless Kind.greater.lexeme)
      (.ending default) _ _ 0 0 rfl rfl rfl rfl rfl rfl
    obtain ⟨left, argument, isArgument, same⟩ := nests (by simp [Name.Nests])
    refine ⟨applied, c', only, run, one, left, argument, isArgument, ?_⟩
    rw [← argument.path_relabel .erase, same]
    rfl
  · obtain ⟨applied, c', only, run, one, -, -, refuses⟩ := @name_as_argument argumentsInFront
      (placeless (named "G")) (placeless Kind.less.lexeme) (placeless Kind.greater.lexeme)
      (.ending default) _ _ 0 0 rfl rfl rfl rfl rfl rfl
    obtain ⟨left, plain⟩ := refuses (by simp [Name.Nests])
    have atBracket : c'.kind = .less := Cursor.kind_of_left (congrArg (List.map Token.kind) left)
    exact ⟨applied, c', only, run, one, atBracket, plain⟩

/-- **A name that is refused**: `a<b>.c` is a name, and `G<a<b>.c>` is not parsed to the end. -/
theorem argument_refused :
    (∃ found c, name (.ofTokens (argumentsInFront ++ [.ending default]) 0) = .ok found c ∧
      c.left = [.ending default]) ∧
    ¬ ∃ applied c', name (.ofTokens (bracketed argumentsInFront) 0) = .ok applied c' ∧
      c'.left = [.ending default] := by
  refine ⟨⟨_, _, rfl, rfl⟩, ?_⟩
  rintro ⟨applied, c', run, left⟩
  cases run
  cases left

end Parse

end FrontEnd

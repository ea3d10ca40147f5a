import FrontEnd.Proofs.Grammar.CarryingFile
import FrontEnd.Proofs.Grammar.ConfiningFile
import FrontEnd.Proofs.Grammar.Spanning
import FrontEnd.Proofs.Token.Stretch

/-!
# A part of a text parsed alone

What was read from a stretch of a text is read from that stretch alone (`Reparses`). The stretch is
cut out of the text and has the tokens that were taken, counted from its own start; the run is
confined to them, so it can be repeated with the end behind them; and a run from a cursor with other
labels is the run with other labels.

**The law** (`Parse.reparses_of_run`): a run of an action that is confined to what it takes gives,
on the stretch from where it began to where it arrived, the same up to numbers and the shift of
positions, and takes all of it.
-/

namespace FrontEnd

open Token

/-- A slice has its ends in order. -/
theorem le_of_slice? {text part : List Char} {start stop : Nat}
    (cut : slice? text start stop = some part) : start ≤ stop := by
  by_contra later
  rw [slice?, if_neg later] at cut
  cases cut

/-! ## Filtered lists -/

/-- **A part of a filtered list** is what is left of a stretch of the list that begins and ends as
the part does. -/
theorem exists_stretch_of_filter {α : Type} {p : α → Bool} {l before part behind : List α}
    (split : l.filter p = before ++ part ++ behind) (some_ : part ≠ []) (more : behind ≠ []) :
    ∃ front first middle back, l = front ++ (first :: middle) ++ back ∧
      (first :: middle).filter p = part ∧ part.head? = some first ∧
      (first :: middle).getLast? = part.getLast? ∧ back ≠ [] := by
  rw [List.append_assoc, List.filter_eq_append_iff] at split
  obtain ⟨front, rest, rfl, -, split⟩ := split
  obtain ⟨stretch, back, rfl, isPart, isBehind⟩ := List.filter_eq_append_iff.1 split
  obtain ⟨first, others, rfl⟩ := List.exists_cons_of_ne_nil some_
  -- What stands before the first element of the part and behind the last one is left out.
  obtain ⟨out, behindFirst, rfl, -, isFirst, areOthers⟩ := List.filter_eq_cons_iff.1 isPart
  have whole : (first :: behindFirst).filter p = first :: others := by
    rw [List.filter_cons_of_pos isFirst, areOthers]
  obtain ⟨init, last, split⟩ : ∃ init last, first :: others = init ++ [last] :=
    ⟨_, _, (List.dropLast_concat_getLast (List.cons_ne_nil first others)).symm⟩
  have reversed : (first :: behindFirst).reverse.filter p = last :: init.reverse := by
    rw [List.filter_reverse, whole, split, List.reverse_append]
    rfl
  obtain ⟨outToo, inside, same, areOut, isLast, areInside⟩ := List.filter_eq_cons_iff.1 reversed
  have cut : first :: behindFirst = inside.reverse ++ [last] ++ outToo.reverse := by
    rw [← List.reverse_inj, same]
    simp
  obtain ⟨middle, isStretch⟩ : ∃ middle, inside.reverse ++ [last] = first :: middle := by
    cases shape : inside.reverse ++ [last] with
    | nil => simp at shape
    | cons other middle =>
      rw [shape] at cut
      exact ⟨middle, by rw [(List.cons.inj cut).1]⟩
  refine ⟨front ++ out, first, middle, outToo.reverse ++ back, ?_, ?_, rfl, ?_, ?_⟩
  · rw [cut, isStretch]
    simp
  · rw [← isStretch, List.filter_append, List.filter_reverse, areInside, List.reverse_reverse,
      List.filter_cons_of_pos isLast, List.filter_nil, ← split]
  · rw [← isStretch, split, List.getLast?_concat, List.getLast?_concat]
  · intro none
    rw [(List.append_eq_nil_iff.1 none).2] at isBehind
    exact more isBehind.symm

namespace Cursor

variable {c c' : Cursor}

/-- **What a walk has taken** stands in front of the first cursor and behind the second. -/
theorem Walks.exists_taken (walks : c.Walks c') :
    ∃ front, c.left = front ++ c'.left ∧ c'.behind = front.reverse ++ c.behind := by
  have same : c'.behind.reverse ++ c'.left = c.behind.reverse ++ c.left := walks.tokens_eq
  have further : c.behind.length ≤ c'.behind.length := walks.index_le
  rcases List.append_eq_append_iff.1 same with ⟨front, behind, left⟩ | ⟨front, behind, left⟩
  · have lengths := congrArg List.length behind
    simp only [List.length_append, List.length_reverse] at lengths
    obtain rfl : front = [] := List.length_eq_zero_iff.1 (by omega)
    rw [List.append_nil, List.reverse_inj] at behind
    exact ⟨[], left.symm, behind.symm⟩
  · refine ⟨front, left, ?_⟩
    rw [← List.reverse_inj, behind, List.reverse_append, List.reverse_reverse]

/-- The last token in front of a cursor is the end, where its tokens end. -/
theorem Ends.left (ends : c.Ends) : ∀ last ∈ c.left.getLast?, last.kind = .eof := by
  intro last mem
  have isEnd : (c.tokens.map Token.kind).getLast? = some last.kind := by
    rw [List.getLast?_map, tokens, List.getLast?_append_of_ne_nil _ (List.cons_ne_nil _ _)]
    exact congrArg (Option.map Token.kind) mem
  exact Option.some.inj (isEnd.symm.trans ends)

end Cursor

/-- The excerpt that a run has taken, with the end where the run arrived. -/
def Excerpt.taken (c c' : Cursor) (ends : c'.Ends) : Excerpt where
  before := c.behind
  rest := c'.left
  ending := .ending c'.reached
  more := List.cons_ne_nil _ _
  ends := ends.left
  ended := rfl

namespace Parse

variable {α : Type} {action other : Parse α} {c c' : Cursor} {value : α}

/-- **A run can be repeated on the tokens that it took**, with the end behind them. -/
theorem Confined.run_alone (confined : ∀ x, Confined x 0 1 0 action other)
    (moves : ∀ d, Moves other 1 d) (ends : c.Ends) (walks : c.Walks c') (shut : c'.Shut)
    (run : action c = .ok value c') :
    ∃ front last, c.left = front ++ c'.left ∧ front.getLast? = some last ∧
      c'.reached = last.span.stop ∧ ∀ d : Cursor, d.left = front ++ [.ending c'.reached] →
        d.behind = [] → d.nextId = c.nextId → ∃ d', other d = .ok value d' ∧ d'.kind = .eof := by
  let x : Excerpt := .taken c c' (walks.ends ends)
  obtain ⟨front, one⟩ := confined x run
  have ahead : c'.left = [] ++ x.rest := rfl
  have least : 1 ≤ front.length := one.least ahead (Nat.zero_le _)
  obtain ⟨init, last, rfl⟩ : ∃ init last, front = init ++ [last] :=
    ⟨_, _, (List.dropLast_concat_getLast (List.ne_nil_of_length_pos least)).symm⟩
  obtain ⟨taken, left, behind⟩ := walks.exists_taken
  obtain rfl : taken = init ++ [last] := List.append_cancel_right (left.symm.trans one.left)
  obtain ⟨final, others, isBehind, isFinal⟩ := shut
  rw [List.reverse_append, List.reverse_singleton, List.singleton_append] at behind
  obtain ⟨rfl, -⟩ := List.cons.inj (behind.symm.trans isBehind)
  have reached : c'.reached = last.span.stop := by rw [Cursor.reached, behind]; rfl
  refine ⟨init ++ [last], last, left, List.getLast?_concat, reached, fun d there start number => ?_⟩
  have beside : x.Beside (init ++ [last] ++ []) c d := by
    rw [List.append_nil]
    refine ⟨one.left, there, by rw [start]; rfl, number, fun token mem => ?_⟩
    rw [List.getLast?_concat] at mem
    cases mem
    exact isFinal
  rcases one.again ahead (Nat.zero_le _) beside (Nat.zero_le _) with
    ⟨d', again, besideLast, -⟩ | ⟨d', spent⟩
  · exact ⟨d', again, besideLast.kind_eof⟩
  · have endsThere : d.Ends := by
      rw [Cursor.Ends, Cursor.tokens, start]
      change (d.left.map Token.kind).getLast? = _
      rw [there, List.map_append]
      exact List.getLast?_concat
    exact absurd spent ((moves d).not_exhausted endsThere)

end Parse

/-- **What was read from a stretch of a text is read from that stretch alone**: cut out of the text,
it has tokens, and the action takes all of them, whatever number it counts from. What it gives is
the same, with other numbers, and positions that are counted from where the stretch begins. -/
structure Reparses {α : Type} (name text : String) (action : Parse α) (relabel : Relabel → α → α)
    (value : α) (span : Span) : Prop where
  inOrder : span.start.offset ≤ span.stop.offset
  alone : ∃ part tokens node distance,
    slice? text.toList span.start.offset span.stop.offset = some part ∧
    Token.ofText name (String.ofList part) = .ok tokens ∧
    relabel (.onward span.start distance) node = value ∧
    ∀ firstId, ∃ c, action (.ofTokens tokens firstId) = .ok (relabel (.shift firstId) node) c ∧
      c.kind = .eof

namespace Parse

variable {α : Type} {action other : Parse α} {relabel : Relabel → α → α} {c c' : Cursor}
  {value : α} {name text : String} {tokens : List Token}

/-- What carries a run to another is known of what the first gives. -/
theorem Carries.of_eq_ok {m : Relabel} {relabel : α → α} (commutes : Commutes m action relabel)
    {d d' : Cursor} (run : action (m.cursor d) = .ok value d') :
    ∃ node d₀, action d = .ok node d₀ ∧ relabel node = value ∧ m.cursor d₀ = d' := by
  have carried := commutes d
  rw [run] at carried
  cases alone : action d with
  | ok node d₀ =>
    rw [alone] at carried
    obtain ⟨same, left⟩ := EStateM.Result.ok.inj carried
    exact ⟨node, d₀, rfl, same.symm, left.symm⟩
  | error h d₀ =>
    rw [alone] at carried
    cases carried

/-- **A run is repeated on its stretch of the text alone.** -/
theorem reparses_of_run (scanned : Token.ofText name text = .ok tokens)
    (kept : c.tokens = tokens.filter (·.kind ≠ .comment)) (ends : c.Ends) (walks : c.Walks c')
    (shut : c'.Shut) (run : action c = .ok value c')
    (confined : ∀ x, Confined x 0 1 0 action other) (moves : ∀ d, Moves other 1 d)
    (commutes : ∀ m : Relabel, m.Counts → Commutes m other (relabel m)) :
    Reparses name text other relabel value ⟨c.here, c'.reached⟩ := by
  obtain ⟨taken, last, left, isLast, reached, again⟩ :=
    Confined.run_alone confined moves ends walks shut run
  have some : taken ≠ [] := by
    rintro rfl
    cases isLast
  have split : tokens.filter (·.kind ≠ .comment) = c.behind.reverse ++ taken ++ c'.left := by
    rw [← kept, Cursor.tokens, List.append_assoc, ← left]
    rfl
  obtain ⟨before, first, middle, behind, rfl, isTaken, isFirst, sameLast, more⟩ :=
    exists_stretch_of_filter split some (List.cons_ne_nil _ _)
  have start : c.here = first.span.start := by
    obtain ⟨others, rfl⟩ := List.head?_eq_some_iff.1 isFirst
    exact congrArg (·.span.start) (List.cons.inj left).1
  obtain ⟨part, own, cut, scannedPart, placed⟩ :=
    Token.ofText_stretch scanned (sameLast.trans isLast) more
  rw [← start, ← reached] at cut placed
  let m := Relabel.onward c.here c.nextId
  let alone := Cursor.ofTokens own 0
  have there : (m.cursor alone).left = taken ++ [.ending c'.reached] := by
    have entered : alone.left = own.filter (·.kind ≠ .comment) := by
      rw [← Cursor.tokens_ofTokens (Token.laid_of_scan scannedPart).covers 0, Cursor.tokens,
        Cursor.behind_ofTokens]
      rfl
    have filtered : (own.filter (·.kind ≠ .comment)).map m.token =
        (own.map m.token).filter (·.kind ≠ .comment) := by
      rw [List.filter_map]
      rfl
    have inPlace : own.map m.token = first :: middle ++ [.ending c'.reached] := placed c.nextId
    rw [Relabel.left_cursor, entered, filtered, inPlace, List.filter_append, isTaken]
    rfl
  have noneBehind : (m.cursor alone).behind = [] :=
    congrArg (List.map m.token) (Cursor.behind_ofTokens own 0)
  have number : (m.cursor alone).nextId = c.nextId := by
    change m.id alone.nextId = _
    rw [Cursor.nextId_ofTokens]
    exact Nat.zero_add _
  obtain ⟨d', runThere, atEnd⟩ := again (m.cursor alone) there noneBehind number
  obtain ⟨node, d₀, runAlone, same, rfl⟩ :=
    (commutes m Relabel.counts_onward).of_eq_ok runThere
  refine ⟨le_of_slice? cut, part, own, node, c.nextId, cut, scannedPart, same, fun firstId => ?_⟩
  have shifted := commutes (.shift firstId) (Relabel.counts_shift firstId) alone
  rw [Relabel.cursor_shift_ofTokens, runAlone, Nat.zero_add] at shifted
  exact ⟨_, shifted, atEnd⟩

end Parse

end FrontEnd

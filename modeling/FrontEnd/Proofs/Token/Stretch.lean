import FrontEnd.Proofs.Token.Leftmost

/-!
# The tokens of a part of a text

A text is cut at the start of one of its tokens and at the end of another. What is left between the
cuts has the tokens between them, in the same places, with the token of the end behind them
(`Token.scan_stretch`). Nothing in front of the part matters, for scanning goes on from the start of
a token as it does from the start of a text. Nothing behind it matters either, for the pattern that
takes a lexeme takes it also where the text ends behind it.

Both are shown lexeme by lexeme: what one takes of the text it takes of every first part in which it
lies (`Token.scan_lexeme`).

**The law** (`Token.ofText_stretch`): the tokens of the part alone are those of the whole in
between, counted from where the part begins.
-/

namespace FrontEnd

/-- **What is counted from the start of a part is counted from the start of the whole**: as many
bytes and lines further on as the part begins at. Numbers are moved on as well. -/
def Relabel.onward (start : Position) (distance : Nat) : Relabel where
  id := (· + distance)
  position p := ⟨p.offset + start.offset, p.line + (start.line - 1), p.file⟩
  file name := name

namespace Relabel

variable {start : Position} {distance : Nat}

theorem counts_onward : (onward start distance).Counts :=
  fun n => Nat.succ_add n distance

/-- The distance between two positions stays. -/
theorem onward_past (here : Position) (text : List Char) :
    (onward start distance).position (here.past text) =
      ((onward start distance).position here).past text := by
  simp [onward, Position.past, Nat.add_right_comm]

/-- The start of a text goes where the part begins. -/
theorem onward_first (file : String) (before : List Char) :
    (onward ((Position.first file).past before) distance).position (.first file) =
      (Position.first file).past before := by
  simp [onward, Position.first, Position.past, Nat.add_comm]

end Relabel

namespace Token

variable {here : Position} {text : List Char} {tokens before rest : List Token} {token : Token}

/-- **A scan goes on behind its first lexeme**, which is a token or is not, in the text as in every
first part of it in which the lexeme lies. -/
theorem scan_lexeme (scanned : scan here text 0 = .ok tokens) (chars : text ≠ []) :
    ∃ lexeme behind, text = lexeme ++ behind ∧ lexeme ≠ [] ∧
      ((∀ front back, behind = front ++ back →
          scan here (lexeme ++ front) 0 = scan (here.past lexeme) front 0) ∨
        ∃ kind found, ∀ front back, behind = front ++ back → scan here (lexeme ++ front) 0 =
          (scan (here.past lexeme) front 0).map
            (⟨kind, found, ⟨here, here.past lexeme⟩⟩ :: ·)) := by
  obtain ⟨pattern, n, first, sound⟩ := exists_first_of_scan scanned chars
  have inside := Pattern.first?_le first
  have taken : (text.take n).length = n := List.length_take_of_le inside
  have nonempty : text.take n ≠ [] := by
    intro none
    rw [none] at taken
    exact absurd taken.symm (Nat.ne_of_gt (Pattern.first?_pos first))
  -- The lexeme is the first of every such part.
  have go (front back : List Char) (split : text.drop n = front ++ back) :
      Pattern.first? (text.take n ++ front) = some (pattern, n) ∧
        (text.take n ++ front).take n = text.take n ∧ (text.take n ++ front).drop n = front := by
    have whole : Pattern.first? (text.take n ++ front ++ back) = some (pattern, n) := by
      rwa [List.append_assoc, ← split, List.take_append_drop]
    refine ⟨Pattern.first?_of_append whole ?_, List.take_left' taken, List.drop_left' taken⟩
    rw [List.length_append, taken]
    exact Nat.le_add_right ..
  refine ⟨text.take n, text.drop n, (List.take_append_drop n text).symm, nonempty, ?_⟩
  cases reading : pattern.reading (text.take n) with
  | fault fault => exact absurd reading (sound fault)
  | skip =>
    refine .inl fun front back split => ?_
    obtain ⟨atFront, whole, behind⟩ := go front back split
    rw [scan_first atFront, whole, behind, reading]
  | token kind found =>
    refine .inr ⟨kind, found, fun front back split => ?_⟩
    obtain ⟨atFront, whole, behind⟩ := go front back split
    rw [scan_first atFront, whole, behind, reading]

/-- What follows a token that was mapped on. -/
theorem exists_of_map_cons {result : Except Diagnostic (List Token)}
    (mapped : result.map (token :: ·) = .ok tokens) :
    ∃ later, result = .ok later ∧ tokens = token :: later := by
  cases result with
  | error d => cases mapped
  | ok later =>
    cases mapped
    exact ⟨later, rfl, rfl⟩

/-- **A scan goes on from the start of a token** as from the start of a text. By induction on the
length of the text: the lexemes in front of the token are taken one by one. -/
theorem scan_from (scanned : scan here text 0 = .ok (before ++ token :: rest)) :
    ∃ front back, text = front ++ back ∧ token.span.start = here.past front ∧
      scan (here.past front) back 0 = .ok (token :: rest) := by
  generalize length : text.length = size
  induction size using Nat.strongRecOn generalizing here text before with
  | ind size ih =>
  by_cases none : text = []
  · subst none
    have single : [ending here] = before ++ token :: rest := Except.ok.inj scanned
    obtain ⟨rfl, same⟩ : before = [] ∧ [ending here] = token :: rest := by
      cases before with
      | nil => exact ⟨rfl, single⟩
      | cons first others => simp at single
    obtain ⟨rfl, rfl⟩ := List.cons.inj same
    exact ⟨[], [], rfl, rfl, rfl⟩
  · obtain ⟨lexeme, behind, rfl, nonempty, step⟩ := scan_lexeme scanned none
    have shorter : behind.length < size := by
      rw [← length, List.length_append]
      exact Nat.lt_add_of_pos_left (List.length_pos_iff.2 nonempty)
    have further {before : List Token}
        (scanned : scan (here.past lexeme) behind 0 = .ok (before ++ token :: rest)) :
        ∃ front back, lexeme ++ behind = front ++ back ∧ token.span.start = here.past front ∧
          scan (here.past front) back 0 = .ok (token :: rest) := by
      obtain ⟨front, back, rfl, start, goesOn⟩ := ih _ shorter scanned rfl
      refine ⟨lexeme ++ front, back, (List.append_assoc ..).symm, ?_, ?_⟩
      · rw [start, Position.past_append]
      · rwa [Position.past_append]
    rcases step with skips | ⟨kind, found, takes⟩
    · rw [skips behind [] (List.append_nil _).symm] at scanned
      exact further scanned
    · have run := scanned
      rw [takes behind [] (List.append_nil _).symm] at run
      obtain ⟨later, isLater, split⟩ := exists_of_map_cons run
      cases before with
      | nil =>
        obtain ⟨rfl, rfl⟩ := List.cons.inj split
        exact ⟨[], lexeme ++ behind, rfl, rfl, scanned⟩
      | cons first others =>
        obtain ⟨rfl, rfl⟩ := List.cons.inj split
        exact further isLater

/-- **A scan stops at the end of a token** where the text does. By induction on the length of the
text: the lexemes up to the token are taken one by one. -/
theorem scan_upTo (scanned : scan here text 0 = .ok (before ++ token :: rest)) (more : rest ≠ []) :
    ∃ front back, text = front ++ back ∧ token.span.stop = here.past front ∧
      scan here front 0 = .ok (before ++ [token, ending (here.past front)]) := by
  generalize length : text.length = size
  induction size using Nat.strongRecOn generalizing here text before with
  | ind size ih =>
  by_cases none : text = []
  · subst none
    have single : [ending here] = before ++ token :: rest := Except.ok.inj scanned
    have lengths := congrArg List.length single
    have pos := List.length_pos_iff.2 more
    simp only [List.length_append, List.length_cons, List.length_nil] at lengths
    omega
  · obtain ⟨lexeme, behind, rfl, nonempty, step⟩ := scan_lexeme scanned none
    have shorter : behind.length < size := by
      rw [← length, List.length_append]
      exact Nat.lt_add_of_pos_left (List.length_pos_iff.2 nonempty)
    rcases step with skips | ⟨kind, found, takes⟩
    · rw [skips behind [] (List.append_nil _).symm] at scanned
      obtain ⟨front, back, rfl, stop, stops⟩ := ih _ shorter scanned rfl
      refine ⟨lexeme ++ front, back, (List.append_assoc ..).symm, ?_, ?_⟩
      · rw [stop, Position.past_append]
      · rw [skips front back rfl, stops, Position.past_append]
    · rw [takes behind [] (List.append_nil _).symm] at scanned
      obtain ⟨later, isLater, split⟩ := exists_of_map_cons scanned
      cases before with
      | nil =>
        obtain ⟨rfl, rfl⟩ := List.cons.inj split
        refine ⟨lexeme, behind, rfl, rfl, ?_⟩
        have alone := takes [] behind rfl
        rwa [List.append_nil] at alone
      | cons first others =>
        obtain ⟨rfl, rfl⟩ := List.cons.inj split
        obtain ⟨front, back, rfl, stop, stops⟩ := ih _ shorter isLater rfl
        refine ⟨lexeme ++ front, back, (List.append_assoc ..).symm, ?_, ?_⟩
        · rw [stop, Position.past_append]
        · rw [takes front back rfl, stops, Position.past_append]
          rfl

/-- **The tokens of a part of a text**, from the start of one to the end of another, in the places
that they have in the whole. -/
theorem scan_stretch {first last : Token} {middle : List Token}
    (scanned : scan here text 0 = .ok (before ++ (first :: middle) ++ rest))
    (isLast : (first :: middle).getLast? = some last) (more : rest ≠ []) :
    ∃ front part back, text = front ++ (part ++ back) ∧ first.span.start = here.past front ∧
      last.span.stop = (here.past front).past part ∧
      scan (here.past front) part 0 = .ok (first :: middle ++ [ending last.span.stop]) := by
  rw [List.append_assoc, List.cons_append] at scanned
  obtain ⟨front, behind, rfl, start, goesOn⟩ := scan_from scanned
  obtain ⟨init, whole⟩ : ∃ init, first :: middle = init ++ [last] := by
    obtain ⟨init, whole⟩ := List.getLast?_eq_some_iff.1 isLast
    exact ⟨init, whole⟩
  rw [← List.cons_append, whole, List.append_assoc, List.singleton_append] at goesOn
  obtain ⟨part, back, rfl, stop, stops⟩ := scan_upTo goesOn more
  refine ⟨front, part, back, rfl, start, stop, ?_⟩
  rw [stops, whole, stop, List.append_assoc]
  rfl

/-- **The tokens of a part alone** are those of the whole in between, counted from where the part
begins. -/
theorem ofText_stretch {name text : String} {first last : Token} {middle : List Token}
    (scanned : ofText name text = .ok (before ++ (first :: middle) ++ rest))
    (isLast : (first :: middle).getLast? = some last) (more : rest ≠ []) :
    ∃ part tokens, slice? text.toList first.span.start.offset last.span.stop.offset = some part ∧
      ofText name (String.ofList part) = .ok tokens ∧ ∀ distance,
        tokens.map (Relabel.onward first.span.start distance).token =
          first :: middle ++ [ending last.span.stop] := by
  obtain ⟨front, part, back, split, start, stop, stretch⟩ := scan_stretch scanned isLast more
  have cut : slice? text.toList first.span.start.offset last.span.stop.offset = some part := by
    have offset : first.span.start.offset = byteLength front := by
      rw [start]
      exact Nat.zero_add _
    have offsetStop : last.span.stop.offset = byteLength front + byteLength part := by
      rw [stop, ← start]
      exact congrArg (· + byteLength part) offset
    rw [split, offset, offsetStop]
    exact slice?_append front part back
  have moved (distance : Nat) : Except.ok (first :: middle ++ [ending last.span.stop]) = _ :=
    stretch.symm.trans ((congrArg (scan · part 0) (Relabel.onward_first name front).symm).trans
      (scan_moved (m := .onward _ distance) Relabel.onward_past (.first name) part 0))
  cases alone : scan (.first name) part 0 with
  | error d =>
    have found := moved 0
    rw [alone] at found
    cases found
  | ok tokens =>
    refine ⟨part, tokens, cut, by rw [ofText, String.toList_ofList, alone], fun distance => ?_⟩
    have placed := moved distance
    rw [alone] at placed
    rw [start]
    exact (Except.ok.inj placed).symm

end Token

end FrontEnd

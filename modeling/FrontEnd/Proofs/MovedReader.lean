import FrontEnd.Proofs.LineOfOffset
import FrontEnd.Source.Reader
import Mathlib.Algebra.GroupWithZero.Nat
import Mathlib.Data.List.Infix

/-!
# Where requests take a reader

A reader that is moved by one request after another keeps its offset and its line from move to move,
and a request past the end takes it to the end. Where it stands (`Reader.standing`) does not depend
on how the way was cut into requests: at their sum, or at the end of the text if they go past it. No
request may stop inside a character (`StopsBetween`), and each must give a size when it is added to
the place where it is made (`Fit`): behind the start of a text a request can be too large for that,
and then it is not met, although it only goes past the end.

One request takes a reader from one place of the text to another (`Reader.advance?_standing`), so
requests in a row take it to where the last of them stops (`Reader.advanceAll?_ofText`).

**The laws** (`Reader.moved_by_sum`, `Token.read_of_ofText`): two requests in a row do what one
request for both does, and the span of the next `n` bytes reaches from where the reader stands to
where a request for `n` takes it; and the tokens of a text are read off in this way, each by a span
and a move over what it was written with.
-/

namespace FrontEnd

/-! ## Stops -/

/-- **An offset stands between two characters** of a text, or at one of its ends. -/
def IsBoundary (text : List Char) (offset : Nat) : Prop :=
  ∃ front back, text = front ++ back ∧ byteLength front = offset

/-- Where requests in a row stop in a text: at their sum, or at its end when they go past it. -/
def stopOf (text : List Char) (requests : List Nat) : Nat :=
  min requests.sum (byteLength text)

/-- **Requests in a row stop between characters**, each of them. -/
def StopsBetween (text : List Char) (requests : List Nat) : Prop :=
  ∀ earlier, earlier <+: requests → IsBoundary text (stopOf text earlier)

/-- **Requests in a row fit**: each of them gives a size with the place where it is made. -/
def Fit (text : List Char) (requests : List Nat) : Prop :=
  ∀ earlier n, earlier ++ [n] <+: requests → stopOf text earlier + n < UInt64.size

variable {file : String} {text : List Char} {requests : List Nat} {offset n : Nat}

/-- An offset is a boundary when the text before it takes as many bytes. -/
theorem isBoundary_iff : IsBoundary text offset ↔ byteLength (textBefore text offset) = offset := by
  constructor
  · rintro ⟨front, back, rfl, rfl⟩
    rw [textBefore_append]
  · intro exact
    have whole := splitBytes_append offset text
    exact ⟨textBefore text offset, textBehind text offset, whole.symm, exact⟩

instance : Decidable (IsBoundary text offset) :=
  decidable_of_iff _ isBoundary_iff.symm

instance : Decidable (StopsBetween text requests) :=
  decidable_of_iff (∀ earlier ∈ requests.inits, IsBoundary text (stopOf text earlier)) <| by
    simp only [List.mem_inits, StopsBetween]

instance : Decidable (Fit text requests) :=
  decidable_of_iff (∀ front ∈ requests.inits, ∀ n ∈ front.getLast?,
      stopOf text front.dropLast + n < UInt64.size) <| by
    simp only [List.mem_inits, Fit]
    constructor
    · intro fit earlier n isPrefix
      simpa using fit (earlier ++ [n]) isPrefix n (by simp)
    · intro fit front isPrefix n last
      obtain ⟨earlier, rfl⟩ := List.getLast?_eq_some_iff.1 last
      simpa using fit earlier n isPrefix

/-- What stops between characters does so in front of its last requests. -/
theorem StopsBetween.of_append {later : List Nat} (stops : StopsBetween text (requests ++ later)) :
    StopsBetween text requests :=
  fun earlier isPrefix => stops earlier (isPrefix.trans (List.prefix_append requests later))

/-- Two requests in a row stop where one request for both does. -/
theorem stopOf_join (text : List Char) (requests : List Nat) (a b : Nat) :
    stopOf text (requests ++ [a, b]) = stopOf text (requests ++ [a + b]) := by
  simp [stopOf]

theorem StopsBetween.join {a b : Nat} (stops : StopsBetween text (requests ++ [a, b])) :
    StopsBetween text (requests ++ [a + b]) := by
  intro earlier isPrefix
  rcases List.prefix_concat_iff.1 isPrefix with rfl | isPrefix
  · have whole := stops (requests ++ [a, b]) List.prefix_rfl
    rwa [stopOf_join] at whole
  · exact stops.of_append earlier isPrefix

/-- Requests fit when those in front of the last fit, and the last does where it is made. -/
theorem fit_append_singleton :
    Fit text (requests ++ [n]) ↔ Fit text requests ∧ stopOf text requests + n < UInt64.size := by
  constructor
  · intro fit
    exact ⟨fun earlier m isPrefix => fit earlier m (isPrefix.trans (List.prefix_append _ _)),
      fit requests n List.prefix_rfl⟩
  · rintro ⟨fit, last⟩ earlier m isPrefix
    rcases List.prefix_concat_iff.1 isPrefix with same | isPrefix
    · obtain ⟨front_eq, last_eq⟩ := List.append_inj' same rfl
      obtain rfl := List.singleton_inj.1 last_eq
      rwa [front_eq]
    · exact fit earlier m isPrefix

/-- A further request stops further on by as many bytes, or at the end. -/
theorem stopOf_append_singleton (text : List Char) (requests : List Nat) (n : Nat) :
    stopOf text (requests ++ [n]) = min (stopOf text requests + n) (byteLength text) := by
  simp only [stopOf, List.sum_append, List.sum_singleton]
  omega

/-! ## Moving -/

namespace Reader

/-- **A reader that stands at an offset of a text**: its line counts the newlines in front of it. -/
def standing (file : String) (text : List Char) (offset : Nat) : Reader :=
  ⟨text, ⟨offset, 1 + newlines (textBefore text offset), file⟩⟩

/-- A reader that is moved by one request after another. -/
def advanceAll? (r : Reader) (requests : List Nat) : Option Reader :=
  requests.foldlM advance? r

theorem advanceAll?_append (r : Reader) (requests later : List Nat) :
    r.advanceAll? (requests ++ later) =
      (r.advanceAll? requests).bind fun next => next.advanceAll? later :=
  List.foldlM_append

theorem advanceAll?_singleton (r : Reader) (n : Nat) : r.advanceAll? [n] = r.advance? n := by
  simp [advanceAll?]

theorem ofText_eq_standing (file : String) (text : List Char) :
    ofText file text = standing file text 0 := by
  have before : textBefore text 0 = [] := textBefore_append [] text
  rw [standing, before]
  rfl

/-- A request is not met where it gives no size with the place where it is made. -/
theorem advance?_eq_none {r : Reader} (exceeds : ¬ r.here.offset + n < UInt64.size) :
    r.advance? n = none := by
  rw [advance?, addSizes?_eq_none exceeds]
  rfl

/-- **One request** takes a reader further by as many bytes, or to the end of the text, unless it
gives no size with the place where it is made. -/
theorem advance?_standing (between : IsBoundary text offset)
    (stop : IsBoundary text (min (offset + n) (byteLength text))) :
    (standing file text offset).advance? n =
      if offset + n < UInt64.size then some (standing file text (min (offset + n) (byteLength text)))
      else none := by
  split
  next fits =>
    obtain ⟨front, back, rfl, rfl⟩ := between
    have further : byteLength front ≤
        min (byteLength front + n) (byteLength (front ++ back)) := by
      rw [byteLength_append]
      omega
    obtain ⟨more, reached⟩ := Nat.exists_eq_add_of_le further
    rw [reached, isBoundary_iff, textBefore_append_add, byteLength_append,
      Nat.add_left_cancel_iff] at stop
    -- What is passed are the bytes of the second part up to the stop.
    have passed : slice? (front ++ back) (byteLength front) (byteLength front + more) =
        some (textBefore back more) := by
      have parts : back = textBefore back more ++ textBehind back more :=
        (splitBytes_append more back).symm
      have found := slice?_append front (textBefore back more) (textBehind back more)
      rwa [stop, ← parts] at found
    rw [advance?]
    simp only [standing, addSizes?_of_lt fits, reached, passed, textBefore_append,
      textBefore_append_add, newlines_append, Option.bind_eq_bind, Option.bind_some, Nat.add_assoc]
    rfl
  next exceeds => exact advance?_eq_none exceeds

/-- A further request takes a reader from the stop of the others to that of all. -/
theorem advance?_stopOf (file : String) (stops : StopsBetween text (requests ++ [n])) :
    (standing file text (stopOf text requests)).advance? n =
      if stopOf text requests + n < UInt64.size then
        some (standing file text (stopOf text (requests ++ [n])))
      else none := by
  have between := stops requests (List.prefix_append _ _)
  have stop := stops (requests ++ [n]) List.prefix_rfl
  rw [stopOf_append_singleton] at stop ⊢
  exact advance?_standing between stop

/-- **Requests in a row** take a reader from the start of a text to their stop, if they fit. -/
theorem advanceAll?_ofText (file : String) (stops : StopsBetween text requests) :
    (ofText file text).advanceAll? requests =
      if Fit text requests then some (standing file text (stopOf text requests)) else none := by
  induction requests using List.reverseRecOn with
  | nil =>
    have fit : Fit text [] := fun earlier n isPrefix => by simp at isPrefix
    rw [if_pos fit, ofText_eq_standing, stopOf, List.sum_nil, Nat.zero_min]
    rfl
  | append_singleton earlier n ih =>
    rw [advanceAll?_append, ih stops.of_append]
    by_cases fit : Fit text earlier
    · rw [if_pos fit, Option.bind_some, advanceAll?_singleton, advance?_stopOf file stops]
      simp only [fit_append_singleton, fit, true_and]
    · have notAll : ¬ Fit text (earlier ++ [n]) := fun all => fit (fit_append_singleton.1 all).1
      rw [if_neg fit, if_neg notAll, Option.bind_none]

/-- **Two further requests** do what one request for both does, as long as that one gives a size. -/
theorem advance?_twice (file : String) {a b : Nat} (stops : StopsBetween text (requests ++ [a, b]))
    (fits : stopOf text requests + (a + b) < UInt64.size) :
    ((standing file text (stopOf text requests)).advance? a).bind (fun next => next.advance? b) =
        some (standing file text (stopOf text (requests ++ [a + b]))) ∧
      (standing file text (stopOf text requests)).advance? (a + b) =
        some (standing file text (stopOf text (requests ++ [a + b]))) := by
  constructor
  · have split : requests ++ [a, b] = requests ++ [a] ++ [b] := by simp
    have stopsToo : StopsBetween text (requests ++ [a] ++ [b]) := split ▸ stops
    have notPast := stopOf_append_singleton text requests a
    have fitsFirst : stopOf text requests + a < UInt64.size := by omega
    have fitsSecond : stopOf text (requests ++ [a]) + b < UInt64.size := by omega
    rw [advance?_stopOf file stopsToo.of_append, if_pos fitsFirst, Option.bind_some,
      advance?_stopOf file stopsToo, if_pos fitsSecond, ← split, stopOf_join]
  · rw [advance?_stopOf file stops.join, if_pos fits]

/-- **A reader is moved by the sum of its requests.** Requests that stop between characters are all
met exactly when they fit. Behind them a reader of a text stands at their sum, or at the end of the
text if they go past it, and a further request takes it further by as many bytes or to the end,
unless it gives no size with the place where it is made. So two further requests do what one request
for both does, as long as that one gives a size. A span is read off a reader, which it does not move:
it reaches from where the reader stands to exactly where a request for as many bytes takes it, and is
missing exactly where that is not met. -/
theorem moved_by_sum (file : String) (stops : StopsBetween text requests) :
    ((ofText file text).advanceAll? requests = none ↔ ¬ Fit text requests) ∧
    ∀ r, (ofText file text).advanceAll? requests = some r →
      r = standing file text (min requests.sum (byteLength text)) ∧
      (∀ n, StopsBetween text (requests ++ [n]) → r.advance? n =
        if r.here.offset + n < UInt64.size then
          some (standing file text (min (requests.sum + n) (byteLength text)))
        else none) ∧
      (∀ a b, StopsBetween text (requests ++ [a, b]) → r.here.offset + (a + b) < UInt64.size →
        ∃ next, (r.advance? a).bind (fun between => between.advance? b) = some next ∧
          r.advance? (a + b) = some next) ∧
      ∀ n, r.spanOf? n = (r.advance? n).map fun next => ⟨r.here, next.here⟩ := by
  have run := advanceAll?_ofText file stops
  refine ⟨by rw [run]; simp, fun r reached => ?_⟩
  rw [run] at reached
  obtain ⟨-, rfl⟩ : Fit text requests ∧ standing file text (stopOf text requests) = r := by
    simpa using reached
  refine ⟨rfl, fun n further => ?_, fun a b further fits => ?_, spanOf?_eq _⟩
  · have stop : stopOf text (requests ++ [n]) = min (requests.sum + n) (byteLength text) := by
      simp [stopOf]
    exact stop ▸ advance?_stopOf file further
  · exact ⟨_, advance?_twice file further fits⟩

/-- A character of two bytes, two newlines and a further character. -/
def accented : List Char :=
  "é\n\nz".toList

/-- A reader behind the first two characters, with a newline and a character left: requests on both
sides of the newline, past the end, and one that is too large from there on. -/
theorem moved_by_sum_accented :
    ∃ r next, (ofText "a" accented).advanceAll? [2, 1] = some r ∧ r.here = ⟨3, 2, "a"⟩ ∧
      next.here = ⟨5, 3, "a"⟩ ∧ r.advance? 10 = some next ∧
      (r.advance? 1).bind (fun between => between.advance? 9) = some next ∧
      r.advance? (UInt64.size - 4) = some next ∧ r.advance? (UInt64.size - 3) = none ∧
      r.spanOf? 10 = some ⟨r.here, next.here⟩ ∧ r.spanOf? (UInt64.size - 3) = none := by
  have stops : StopsBetween accented [2, 1] := by decide +kernel
  obtain ⟨met, behind⟩ := moved_by_sum "a" stops
  cases reached : (ofText "a" accented).advanceAll? [2, 1] with
  | none => exact absurd (by decide +kernel) (met.1 reached)
  | some r =>
    obtain ⟨rfl, further, joined, spans⟩ := behind r reached
    obtain ⟨next, twice, once⟩ := joined 1 9 (by decide +kernel) (by decide +kernel)
    have toEnd := further 10 (by decide +kernel)
    have farther := further (UInt64.size - 4) (by decide +kernel)
    have tooFar := further (UInt64.size - 3) (by decide +kernel)
    have sameEnd : min ([2, 1].sum + (UInt64.size - 4)) (byteLength accented) =
        min ([2, 1].sum + 10) (byteLength accented) := by decide +kernel
    rw [if_pos (by decide +kernel)] at toEnd farther
    rw [if_neg (by decide +kernel)] at tooFar
    rw [sameEnd, ← toEnd] at farther
    obtain rfl := Option.some.inj (once.symm.trans toEnd)
    refine ⟨_, _, rfl, by decide +kernel, by decide +kernel, once, twice, farther.trans once, tooFar,
      ?_, ?_⟩
    · rw [spans, once]
      rfl
    · rw [spans, tooFar]
      rfl

/-- **A request past the end is not always met**: behind the first of two characters the largest size
gives no size with the place, though it stops at the end like every request past it. -/
theorem advanceAll?_largest : StopsBetween "ab".toList [1, UInt64.size - 1] ∧
    stopOf "ab".toList [1, UInt64.size - 1] = 2 ∧
    (ofText "a" "ab".toList).advanceAll? [1, UInt64.size - 1] = none ∧
    (ofText "a" "ab".toList).advanceAll? [UInt64.size - 1] =
      some (standing "a" "ab".toList 2) := by
  decide +kernel

/-! ## Reading tokens -/

/-- A request for a middle part of a text, where it begins, takes a reader to where it ends. -/
theorem advance?_append {front middle back : List Char} {here : Position}
    (small : byteLength (front ++ (middle ++ back)) < UInt64.size)
    (at_front : here.offset = byteLength front) :
    advance? ⟨front ++ (middle ++ back), here⟩ (byteLength middle) =
      some ⟨front ++ (middle ++ back), here.past middle⟩ := by
  simp only [byteLength_append] at small
  have fits : byteLength front + byteLength middle < UInt64.size := by omega
  simp [advance?, at_front, addSizes?_of_lt fits, slice?_append, Position.past]

/-- The span of a middle part of a text, where it begins, reaches to where it ends. -/
theorem spanOf?_append {front middle back : List Char} {here : Position}
    (small : byteLength (front ++ (middle ++ back)) < UInt64.size)
    (at_front : here.offset = byteLength front) :
    spanOf? ⟨front ++ (middle ++ back), here⟩ (byteLength middle) =
      some ⟨here, here.past middle⟩ := by
  rw [spanOf?_eq, advance?_append small at_front, Option.map_some]

end Reader

namespace Token

open Reader

/-- **The tokens that a reader reads**, or the fault that it meets. At each turn the first pattern
that fits what is left takes its lexeme. A token has the span of as many bytes as the lexeme takes,
and by as many bytes the reader is moved on; what is no token is moved over only; and a fault stands
where the reader does. -/
inductive Reads : Reader → Except Diagnostic (List Token) → Prop where
  | ending {r : Reader} {span : Span} (atEnd : r.atEnd = true) (place : r.spanOf? 0 = some span) :
      Reads r (.ok [⟨.eof, "EOF", span⟩])
  | unrecognised {r : Reader} {c : Char} {rest : List Char} {span : Span}
      (left : r.remainder? = some (c :: rest)) (none : Pattern.first? (c :: rest) = none)
      (place : r.spanOf? 0 = some span) :
      Reads r (.error ⟨.unrecognisedToken c.toString, span.start⟩)
  | fault {r : Reader} {rest : List Char} {pattern : Pattern} {count : Nat} {fault : Fault}
      {span : Span} (left : r.remainder? = some rest)
      (first : Pattern.first? rest = some (pattern, count))
      (reading : pattern.reading (rest.take count) = .fault fault)
      (place : r.spanOf? 0 = some span) : Reads r (.error ⟨fault, span.start⟩)
  | skip {r next : Reader} {rest : List Char} {pattern : Pattern} {count : Nat}
      {result : Except Diagnostic (List Token)} (left : r.remainder? = some rest)
      (first : Pattern.first? rest = some (pattern, count))
      (reading : pattern.reading (rest.take count) = .skip)
      (moved : r.advance? (byteLength (rest.take count)) = some next) (later : Reads next result) :
      Reads r result
  | token {r next : Reader} {rest : List Char} {pattern : Pattern} {count : Nat} {kind : Kind}
      {text : String} {span : Span} {result : Except Diagnostic (List Token)}
      (left : r.remainder? = some rest) (first : Pattern.first? rest = some (pattern, count))
      (reading : pattern.reading (rest.take count) = .token kind text)
      (place : r.spanOf? (byteLength (rest.take count)) = some span)
      (moved : r.advance? (byteLength (rest.take count)) = some next) (later : Reads next result) :
      Reads r (result.map (⟨kind, text, span⟩ :: ·))

/-- **Scanning reads**: what is left behind a first part of a text is scanned to what a reader reads
that stands there. Each turn takes a lexeme, which has a character. -/
theorem reads_scan {front rest : List Char} {here : Position}
    (small : byteLength (front ++ rest) < UInt64.size) (at_front : here.offset = byteLength front) :
    Reads ⟨front ++ rest, here⟩ (scan here rest 0) := by
  induction bound : rest.length using Nat.strongRecOn generalizing front rest here with
  | ind size ih =>
    have left : remainder? ⟨front ++ rest, here⟩ = some rest := by
      rw [remainder?, at_front]
      exact sliceFrom?_append front rest
    have stay : spanOf? ⟨front ++ rest, here⟩ 0 = some ⟨here, here⟩ :=
      @spanOf?_append front [] rest here small at_front
    cases rest with
    | nil =>
      refine .ending ?_ stay
      simp [atEnd, at_front]
    | cons c rest =>
      rw [scan]
      cases first : Pattern.first? (c :: rest) with
      | none => exact .unrecognised left first stay
      | some found =>
        obtain ⟨pattern, count⟩ := found
        obtain ⟨fewer, rfl⟩ := Nat.exists_eq_add_of_lt (Pattern.first?_pos first)
        rw [Nat.zero_add] at first
        have whole : (c :: rest).take (fewer + 1) ++ rest.drop fewer = c :: rest := by simp
        have shorter : (rest.drop fewer).length < size := by
          simp only [List.length_cons, List.length_drop] at bound ⊢
          omega
        have place := @spanOf?_append front ((c :: rest).take (fewer + 1)) (rest.drop fewer) here
        have moved := @advance?_append front ((c :: rest).take (fewer + 1)) (rest.drop fewer) here
        have later := @ih _ shorter (front ++ (c :: rest).take (fewer + 1)) (rest.drop fewer)
          (here.past ((c :: rest).take (fewer + 1)))
        rw [whole] at place moved
        rw [List.append_assoc, whole] at later
        have later := later small (by simp [Position.past, at_front]) rfl
        dsimp only
        rw [Nat.zero_add, Nat.add_sub_cancel, scan_skip]
        cases reading : pattern.reading ((c :: rest).take (fewer + 1)) with
        | fault fault => exact .fault left first reading stay
        | skip => exact .skip left first reading (moved small at_front) later
        | token kind text =>
          exact .token left first reading (place small at_front) (moved small at_front) later

/-- **Tokens are read off by a reader**: what a text is scanned to is what a reader reads from its
start on, if the length of the text is a size. -/
theorem read_of_ofText (file text : String) (small : byteLength text.toList < UInt64.size) :
    Reads (Reader.ofText file text.toList) (ofText file text) :=
  @reads_scan [] text.toList (.first file) small rfl

end Token

end FrontEnd

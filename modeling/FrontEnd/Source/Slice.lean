import FrontEnd.Source.Position

/-!
# Slices of a text

A slice of a text is read by its byte offsets. It is there only where the offsets are in order, lie
within the text, and stand between two characters.

**The law** (`cut?_eq_some_iff`): a text is cut exactly at the boundaries of its characters.
-/

namespace FrontEnd

/-- **The parts of a text before and behind a byte offset**, if the offset lies within the text and
between two characters. -/
def cut? : List Char → Nat → Option (List Char × List Char)
  | text, 0 => some ([], text)
  | [], _ + 1 => none
  | c :: rest, n + 1 =>
    if c.utf8Size ≤ n + 1 then
      (cut? rest (n + 1 - c.utf8Size)).map fun (front, back) => (c :: front, back)
    else none

/-- **The slice of a text between two byte offsets**, if there is one. -/
def slice? (text : List Char) (start stop : Nat) : Option (List Char) :=
  if start ≤ stop then do
    let (_, behind) ← cut? text start
    let (middle, _) ← cut? behind (stop - start)
    return middle
  else none

/-- The slice of a text from a byte offset on, if there is one. -/
def sliceFrom? (text : List Char) (start : Nat) : Option (List Char) :=
  (cut? text start).map Prod.snd

/-- A text that has a character takes a byte. -/
theorem byteLength_pos {text : List Char} (some : text ≠ []) : 0 < byteLength text := by
  cases text with
  | nil => exact absurd rfl some
  | cons c rest => exact Nat.add_pos_left c.utf8Size_pos _

/-- A part that takes no byte has no character. -/
theorem eq_nil_of_byteLength {text : List Char} (none : byteLength text = 0) : text = [] := by
  cases text with
  | nil => rfl
  | cons c rest =>
    have positive := byteLength_pos (List.cons_ne_nil c rest)
    omega

/-- **A text is cut exactly between two characters**, where the part before takes as many bytes as
the offset says. -/
theorem cut?_eq_some_iff {text front back : List Char} {n : Nat} :
    cut? text n = some (front, back) ↔ text = front ++ back ∧ byteLength front = n := by
  induction text generalizing n front back with
  | nil =>
    cases n with
    | zero =>
      simp only [cut?, Option.some.injEq, Prod.mk.injEq, List.nil_eq, List.append_eq_nil_iff]
      constructor
      · rintro ⟨rfl, rfl⟩
        simp
      · rintro ⟨⟨rfl, rfl⟩, -⟩
        simp
    | succ n =>
      simp only [cut?, List.nil_eq, List.append_eq_nil_iff]
      constructor
      · nofun
      · rintro ⟨⟨rfl, rfl⟩, bytes⟩
        cases bytes
  | cons c rest ih =>
    cases n with
    | zero =>
      simp only [cut?, Option.some.injEq, Prod.mk.injEq]
      constructor
      · rintro ⟨rfl, rfl⟩
        simp
      · rintro ⟨whole, bytes⟩
        obtain rfl := eq_nil_of_byteLength bytes
        exact ⟨rfl, whole⟩
    | succ n =>
      have positive := c.utf8Size_pos
      simp only [cut?]
      constructor
      · intro found
        split at found
        next fits =>
          obtain ⟨⟨before, behind⟩, run, same⟩ := Option.map_eq_some_iff.1 found
          obtain ⟨rfl, bytes⟩ := ih.1 run
          cases same
          refine ⟨rfl, ?_⟩
          rw [byteLength_cons, bytes]
          omega
        next => cases found
      · rintro ⟨whole, bytes⟩
        cases front with
        | nil => cases bytes
        | cons d before =>
          obtain ⟨rfl, rfl⟩ := List.cons.inj whole
          rw [byteLength_cons] at bytes
          have fits : c.utf8Size ≤ n + 1 := by omega
          have run : cut? (before.append back) (n + 1 - c.utf8Size) = some (before, back) := by
            apply ih.2
            exact ⟨rfl, by omega⟩
          rw [if_pos fits, run, Option.map_some]

/-- A text is cut behind its first part. -/
theorem cut?_append (front back : List Char) :
    cut? (front ++ back) (byteLength front) = some (front, back) :=
  cut?_eq_some_iff.2 ⟨rfl, rfl⟩

/-- **The slice over a middle part** is that part. -/
theorem slice?_append (front middle back : List Char) :
    slice? (front ++ (middle ++ back)) (byteLength front) (byteLength front + byteLength middle) =
      some middle := by
  have inOrder : byteLength front ≤ byteLength front + byteLength middle := Nat.le_add_right ..
  rw [slice?, if_pos inOrder, Nat.add_sub_cancel_left]
  simp [cut?_append]

/-- The slice over a first part is that part. -/
theorem slice?_zero (front back : List Char) :
    slice? (front ++ back) 0 (byteLength front) = some front := by
  simpa using slice?_append [] front back

/-- The slice from behind a first part on is the second part. -/
theorem sliceFrom?_append (front back : List Char) :
    sliceFrom? (front ++ back) (byteLength front) = some back := by
  rw [sliceFrom?, cut?_append, Option.map_some]

end FrontEnd

/-!
# Outcomes of resolution

Which node of the symbol tree each segment of a type name refers to. The outcomes are pairs in
ascending order of the numbers of the segments, which the type keeps, so they are the same exactly
when every segment refers to the same node.

**The law** (`Resolutions.get?_insert`): what was noted last for a segment is found for it, and
nothing else changes.
-/

namespace FrontEnd

namespace Resolutions

/-- Puts a pair in its place, in place of the one with the same key. -/
def insertEntry (key value : Nat) : List (Nat × Nat) → List (Nat × Nat)
  | [] => [(key, value)]
  | (k, v) :: rest =>
    if key < k then (key, value) :: (k, v) :: rest
    else if key = k then (key, value) :: rest
    else (k, v) :: insertEntry key value rest

/-- A pair that stands in a list after an insertion is the new one or stood there before. -/
theorem mem_of_mem_insertEntry {key value : Nat} {entries : List (Nat × Nat)} {entry : Nat × Nat}
    (h : entry ∈ insertEntry key value entries) : entry = (key, value) ∨ entry ∈ entries := by
  induction entries with
  | nil => simpa [insertEntry] using h
  | cons first rest ih =>
    unfold insertEntry at h
    split at h
    · simpa using h
    · split at h <;> grind

/-- An insertion keeps the keys ascending. -/
theorem ascending_insertEntry (key value : Nat) {entries : List (Nat × Nat)}
    (ascending : entries.Pairwise fun a b => a.1 < b.1) :
    (insertEntry key value entries).Pairwise fun a b => a.1 < b.1 := by
  induction ascending with
  | nil => exact List.pairwise_singleton ..
  | @cons first rest above ascending ih =>
    unfold insertEntry
    split
    next before =>
      refine (ascending.cons above).cons fun entry mem => ?_
      rcases List.mem_cons.1 mem with rfl | old
      · exact before
      · exact Nat.lt_trans before (above entry old)
    next notBefore =>
      split
      next same => exact ascending.cons fun entry mem => same ▸ above entry mem
      next different =>
        refine ih.cons fun entry mem => ?_
        rcases mem_of_mem_insertEntry mem with rfl | old
        · exact Nat.lt_of_le_of_ne (Nat.le_of_not_lt notBefore) (Ne.symm different)
        · exact above entry old

end Resolutions

/-- **Which node each segment refers to**, as pairs of the number of a segment and the number of a
node, ascending in the first. -/
structure Resolutions where
  entries : List (Nat × Nat)
  ascending : entries.Pairwise fun a b => a.1 < b.1
deriving DecidableEq, Repr

namespace Resolutions

/-- No segment is resolved. -/
def empty : Resolutions :=
  ⟨[], .nil⟩

/-- The outcomes with that of a further segment, which replaces an earlier one. -/
def insert (r : Resolutions) (segment node : Nat) : Resolutions :=
  ⟨insertEntry segment node r.entries, ascending_insertEntry segment node r.ascending⟩

/-- The node that a segment refers to. -/
def get? (r : Resolutions) (segment : Nat) : Option Nat :=
  r.entries.lookup segment

/-- The number of segments that are resolved. -/
def size (r : Resolutions) : Nat :=
  r.entries.length

@[simp] theorem get?_empty (segment : Nat) : empty.get? segment = none := rfl

/-- Looking up a key passes over the pairs with other keys. -/
theorem lookup_entry (key k v : Nat) (rest : List (Nat × Nat)) :
    ((k, v) :: rest).lookup key = if key = k then some v else rest.lookup key := by
  by_cases h : key = k
  · simp [h]
  · simp [List.lookup_cons, beq_false_of_ne h, h]

/-- A segment that was noted has its node; the others are as before. -/
theorem get?_insert (r : Resolutions) (segment node other : Nat) :
    (r.insert segment node).get? other = if other = segment then some node else r.get? other := by
  obtain ⟨entries, ascending⟩ := r
  simp only [get?, insert]
  clear ascending
  induction entries with
  | nil => exact lookup_entry ..
  | cons first rest ih =>
    obtain ⟨k, v⟩ := first
    unfold insertEntry
    split
    · exact lookup_entry ..
    · split
      next same => rw [lookup_entry, lookup_entry]; grind
      next different => rw [lookup_entry, ih, lookup_entry]; grind

end Resolutions

end FrontEnd

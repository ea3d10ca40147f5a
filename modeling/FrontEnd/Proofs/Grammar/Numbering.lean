import FrontEnd.Grammar.Name
import FrontEnd.Proofs.Action
import FrontEnd.Proofs.Program.AllNames
import Mathlib.Data.List.Perm.Subperm

/-!
# How segments are numbered

A parsing action takes the numbers of the segments that it makes from the count of its cursor and
moves the count on. So the numbers of what it gives are all those from the count before it to the
count behind it, each once (`Counted`): none is shared, and none is lost.

An action is said to number its value (`Numbers`) when this holds of every run, also of one that
begins when further numbers were taken before. The rules follow the actions: an action behind
another goes on from what the first has taken, and what is given may move numbers but neither repeat
nor drop one.
-/

namespace FrontEnd

/-- **Numbers taken between two counts**, none of them twice. -/
structure Taken (first : Nat) (ids : List Nat) (next : Nat) : Prop where
  le : first ≤ next
  inside : ∀ id ∈ ids, first ≤ id ∧ id < next
  nodup : ids.Nodup

namespace Taken

variable {first next last : Nat} {ids further : List Nat}

theorem none (h : first ≤ next) : Taken first [] next :=
  ⟨h, nofun, .nil⟩

theorem single (id : Nat) : Taken id [id] (id + 1) where
  le := Nat.le_succ id
  inside := by simp
  nodup := by simp

/-- What is taken from a count on differs from all that was taken before. -/
theorem append (before : Taken first ids next) (after : Taken next further last) :
    Taken first (ids ++ further) last where
  le := Nat.le_trans before.le after.le
  inside := by
    intro id mem
    have := before.le
    have := after.le
    rcases List.mem_append.1 mem with mem | mem
    · have := before.inside id mem
      omega
    · have := after.inside id mem
      omega
  nodup := by
    refine List.nodup_append.2 ⟨before.nodup, after.nodup, fun a memA b memB same => ?_⟩
    have := before.inside a memA
    have := after.inside b memB
    omega

/-- Numbers may be dropped and moved. -/
theorem subperm (h : Taken first ids next) (fewer : further.Subperm ids) :
    Taken first further next where
  le := h.le
  inside := fun id mem => h.inside id (fewer.subset mem)
  nodup := by
    obtain ⟨sub, perm, within⟩ := fewer
    exact perm.nodup_iff.1 (within.nodup h.nodup)

end Taken

/-- **All numbers between two counts**, each of them once. -/
structure Counted (first : Nat) (ids : List Nat) (next : Nat) : Prop where
  le : first ≤ next
  all : ids.Perm (List.range' first (next - first))

namespace Counted

variable {first next last : Nat} {ids further : List Nat}

theorem none (id : Nat) : Counted id [] id where
  le := Nat.le_refl id
  all := by simp

theorem single (id : Nat) : Counted id [id] (id + 1) where
  le := Nat.le_succ id
  all := by simp

theorem append (before : Counted first ids next) (after : Counted next further last) :
    Counted first (ids ++ further) last where
  le := Nat.le_trans before.le after.le
  all := by
    obtain ⟨size, rfl⟩ := Nat.exists_eq_add_of_le before.le
    obtain ⟨more, rfl⟩ := Nat.exists_eq_add_of_le after.le
    have both := before.all.append after.all
    rwa [Nat.add_sub_cancel_left, Nat.add_sub_cancel_left, List.range'_append_1,
      ← Nat.add_sub_cancel_left first (size + more), ← Nat.add_assoc] at both

/-- Numbers may be moved. -/
theorem perm (h : Counted first ids next) (moved : further.Perm ids) :
    Counted first further next :=
  ⟨h.le, moved.trans h.all⟩

theorem mem_iff (h : Counted first ids next) {id : Nat} : id ∈ ids ↔ first ≤ id ∧ id < next := by
  rw [h.all.mem_iff, List.mem_range'_1, Nat.add_sub_of_le h.le]

theorem nodup (h : Counted first ids next) : ids.Nodup :=
  h.all.nodup_iff.2 List.nodup_range'

theorem taken (h : Counted first ids next) : Taken first ids next :=
  ⟨h.le, fun _ => h.mem_iff.1, h.nodup⟩

end Counted

/-! ## Actions that number what they give -/

/-- **An action numbers what it gives**, `used` being taken before it and `ids` of its value behind
it. -/
def Numbers {α : Type} (used : List Nat) (action : Parse α) (ids : α → List Nat) : Prop :=
  ∀ ⦃first c value c'⦄, action c = .ok value c' → Counted first used c.nextId →
    Counted first (ids value) c'.nextId

/-- An action that takes no numbers. -/
abbrev Quiet {α : Type} (action : Parse α) : Prop :=
  Numbers [] action fun _ => []

namespace Numbers

variable {α β : Type} {used more : List Nat} {action : Parse α} {ids : α → List Nat}

/-- Numbers that were taken before stay taken. -/
theorem frame (h : Numbers [] action ids) (used : List Nat) :
    Numbers used action fun value => used ++ ids value := by
  intro first c value c' run before
  exact before.append (h run (.none c.nextId))

theorem pure {value : α} (moved : (ids value).Perm used) : Numbers used (Pure.pure value) ids := by
  intro first c given c' run before
  obtain ⟨rfl, rfl⟩ := pure_eq_ok.1 run
  exact before.perm moved

/-- What is given may depend on that no number was taken twice. -/
theorem distinct (h : used.Nodup → Numbers used action ids) : Numbers used action ids :=
  fun _ _ _ _ run before => h before.nodup run before

/-- **An action behind another** goes on from what the first has taken. -/
theorem bind {next : α → Parse β} {final : β → List Nat} (here : Numbers [] action ids)
    (behind : ∀ value, Numbers (used ++ ids value) (next value) final) :
    Numbers used (action >>= next) final := by
  intro first c given c' run before
  obtain ⟨value, between, firstRun, restRun⟩ := bind_eq_ok.1 run
  exact behind value restRun (here.frame used firstRun before)

theorem skip {next : α → Parse β} {final : β → List Nat} (here : Quiet action)
    (behind : ∀ value, Numbers used (next value) final) : Numbers used (action >>= next) final :=
  bind here fun value => by
    rw [List.append_nil]
    exact behind value

theorem perm {final : α → List Nat} (h : Numbers used action ids)
    (moved : ∀ value, (final value).Perm (ids value)) : Numbers used action final := by
  intro first c value c' run before
  exact (h run before).perm (moved value)

theorem map {f : α → β} {final : β → List Nat} (h : Numbers [] action ids)
    (moved : ∀ value, (final (f value)).Perm (ids value)) : Numbers [] (f <$> action) final := by
  rw [map_eq_pure_bind]
  exact bind h fun value => pure (moved value)

theorem halt {halt : Halt} : Numbers used (throw halt : Parse α) ids := by
  intro first c value c' run
  exact absurd run throw_ne_ok

end Numbers

namespace Parse

open Token

variable {α : Type} {ids : α → List Nat}

/-! ## Single tokens -/

theorem quiet_get : Quiet (get : Parse Cursor) := by
  intro first c value c' run before
  cases run
  exact before

theorem nextId_next (c : Cursor) : c.next.nextId = c.nextId := by
  unfold Cursor.next
  split <;> rfl

theorem quiet_advance : Quiet advance := by
  intro first c value c' run before
  cases run
  exact (nextId_next c).symm ▸ before

theorem quiet_kind : Quiet kind :=
  .skip quiet_get fun _ => .pure .nil

theorem quiet_here : Quiet here :=
  .skip quiet_get fun _ => .pure .nil

theorem quiet_spanFrom (start : Position) : Quiet (spanFrom start) :=
  .skip quiet_get fun _ => .pure .nil

theorem numbers_unexpected {used : List Nat} (expected : String) :
    Numbers used (unexpected expected) ids :=
  .skip quiet_get fun _ => .halt

theorem quiet_consume (kind : Kind) : Quiet (consume kind) := by
  refine .skip quiet_get fun c => ?_
  split
  · exact .skip quiet_advance fun _ => .pure .nil
  · exact .pure .nil

theorem quiet_expectOr (kind : Kind) (other : Option Diagnostic) : Quiet (expectOr kind other) := by
  refine .skip quiet_get fun c => ?_
  split
  · exact quiet_advance
  · cases other with
    | none => exact numbers_unexpected _
    | some diagnostic => exact .halt

theorem quiet_expect (kind : Kind) : Quiet (expect kind) :=
  quiet_expectOr kind none

theorem quiet_separator (closing : Kind) : Quiet (separator closing) := by
  refine .skip quiet_get fun c => ?_
  split
  · exact .skip quiet_advance fun _ => .pure .nil
  · split
    · exact .pure .nil
    · exact numbers_unexpected _

theorem quiet_arrayMark : Quiet arrayMark := by
  refine .skip (quiet_consume _) fun opens => ?_
  split
  · exact .skip (quiet_expect _) fun _ => .pure .nil
  · exact .pure .nil

/-- A fresh number is the count itself, which moves on by one. -/
theorem numbers_freshId : Numbers [] freshId fun id => [id] := by
  intro first c value c' run before
  cases run
  exact before.append (.single c.nextId)

/-! ## Repetition -/

/-- **A repeated action** numbers all that it gives. -/
theorem numbers_repeatUpTo {item : Parse α} (each : Numbers [] item ids) (holds : Cursor → Bool)
    (n : Nat) : Numbers [] (repeatUpTo holds item n) (·.flatMap ids) := by
  induction n with
  | zero =>
    refine .skip quiet_get fun c => ?_
    split
    · exact .halt
    · exact .pure .nil
  | succ n ih =>
    refine .skip quiet_get fun c => ?_
    split
    · exact .bind each fun first => .bind ih fun rest => .pure (.refl _)
    · exact .pure .nil

theorem numbers_repeatWhile {item : Parse α} (each : Numbers [] item ids)
    (holds : Cursor → Bool) : Numbers [] (repeatWhile holds item) (·.flatMap ids) :=
  .skip quiet_get fun _ => numbers_repeatUpTo each holds _

theorem numbers_separated {item : Parse α} (each : Numbers [] item ids) (closing : Kind) :
    Numbers [] (separated closing item) (·.flatMap ids) := by
  refine numbers_repeatWhile (.bind each fun value => ?_) _
  exact .skip (quiet_separator closing) fun _ => .pure (.refl _)

theorem quiet_separated {item : Parse α} (each : Quiet item) (closing : Kind) :
    Quiet (separated closing item) :=
  (numbers_separated each closing).perm fun values => by simp

/-- **An action that grows a value** numbers it when each step goes on from the value before. -/
theorem numbers_growWhile {step : α → Parse α}
    (each : ∀ value, Numbers (ids value) (step value) ids) (holds : Cursor → Bool) (value : α) :
    Numbers (ids value) (growWhile holds step value) ids := by
  refine .skip quiet_get fun c => ?_
  generalize c.left.length = n
  induction n generalizing value with
  | zero =>
    refine .skip quiet_get fun c => ?_
    split
    · exact .halt
    · exact .pure (.refl _)
  | succ n ih =>
    refine .skip quiet_get fun c => ?_
    split
    · intro first c grown c' run before
      obtain ⟨next, between, stepRun, restRun⟩ := bind_eq_ok.1 run
      exact ih next restRun (each value stepRun before)
    · exact .pure (.refl _)

/-! ## Names -/

end Parse

/-- The numbers in what an identifier is. -/
def Identifier.ids : Identifier → List Nat
  | .plain _ _ => []
  | .applied segment => segment.ids

namespace Parse

theorem numbers_typeArguments {name : Parse Name} (each : Numbers [] name Name.ids) :
    Numbers [] (typeArguments name) (·.flatMap Name.ids) :=
  .skip (quiet_expect _) fun _ => .bind (numbers_separated each _) fun _ =>
    .skip (quiet_expect _) fun _ => .pure (.refl _)

theorem numbers_identifierOf {name : Parse Name} (each : Numbers [] name Name.ids) :
    Numbers [] (identifierOf name) Identifier.ids := by
  refine .skip (quiet_expect _) fun token => .skip quiet_get fun c => ?_
  split
  · refine .bind numbers_freshId fun id => .bind (numbers_typeArguments each) fun arguments => ?_
    refine .skip (quiet_spanFrom _) fun span => .pure ?_
    rw [Identifier.ids, Segment.ids_eq]
    exact .refl _
  · exact .pure .nil

theorem numbers_segmentOf {name : Parse Name} (each : Numbers [] name Name.ids) :
    Numbers [] (segmentOf name) Segment.ids := by
  refine .bind (numbers_identifierOf each) fun identifier => ?_
  cases identifier with
  | plain text span =>
    refine .bind numbers_freshId fun id => .pure ?_
    rw [Segment.ids_eq]
    exact .refl _
  | applied segment => exact .pure (.refl _)

theorem numbers_nameUpTo (n : Nat) : Numbers [] (nameUpTo n) Name.ids := by
  induction n with
  | zero => exact .halt
  | succ n ih =>
    refine .skip quiet_here fun start => .bind (numbers_segmentOf ih) fun first => ?_
    refine .bind (numbers_repeatWhile (.skip quiet_advance fun _ => numbers_segmentOf ih) _)
      fun rest => ?_
    refine .skip (quiet_spanFrom _) fun span => .pure ?_
    rw [Name.ids_eq, List.flatMap_cons]
    exact .refl _

/-- **A name is numbered**: no two of its segments share a number. -/
theorem numbers_name : Numbers [] name Name.ids :=
  .skip quiet_get fun _ => numbers_nameUpTo _

theorem numbers_segment : Numbers [] segment Segment.ids :=
  numbers_segmentOf numbers_name

theorem numbers_identifier : Numbers [] identifier Identifier.ids :=
  numbers_identifierOf numbers_name

/-- The numbers in the bound of a type parameter. -/
theorem numbers_typeParameter :
    Numbers [] typeParameter fun p => p.bound.toList.flatMap Name.ids := by
  refine .skip (quiet_expect _) fun token => .skip (quiet_consume _) fun bounded => ?_
  dsimp only
  split
  · have bound : Numbers [] (some <$> name) fun bound => bound.toList.flatMap Name.ids :=
      .map numbers_name fun name => List.flatMap_singleton Name.ids name ▸ .refl _
    exact .bind bound fun bound => .skip (quiet_separator _) fun _ => .pure (.refl _)
  · rw [pure_bind]
    exact .skip (quiet_separator _) fun _ => .pure .nil

theorem flatMap_bound (parameters : List TypeParameter) :
    (parameters.flatMap fun p => p.bound.toList.flatMap Name.ids) =
      (boundsOf parameters).flatMap Name.ids := by
  induction parameters with
  | nil => rfl
  | cons first rest ih =>
    rw [List.flatMap_cons, ih, boundsOf, boundsOf]
    cases bound : first.bound <;> simp [bound]

theorem numbers_typeParameters :
    Numbers [] typeParameters fun parameters => (boundsOf parameters).flatMap Name.ids := by
  refine .skip (quiet_consume _) fun opens => ?_
  split
  · refine .bind (numbers_repeatWhile numbers_typeParameter _) fun parameters =>
      .skip (quiet_expect _) fun _ => .pure ?_
    rw [← flatMap_bound]
    exact .refl _
  · exact .pure .nil

end Parse

end FrontEnd

import FrontEnd.Grammar.Name
import FrontEnd.Proofs.Action
import FrontEnd.Program.Relabel

/-!
# Parsing commutes with relabelling

A parsing action looks at the kinds and the texts of tokens. The numbers and the positions that it
meets go into what it gives and decide nothing. So a run from a relabelled cursor is the relabelled
run: it gives the relabelled value and leaves the relabelled cursor, or it halts with the relabelled
fault (`Parse.Carries`). The one thing asked of the relabelling is that it counts as the cursor does
(`Relabel.Counts`).

The rules follow the actions. An action behind another is compared with the one behind the other's
relabelled value, which is why two actions stand in the judgement.
-/

namespace FrontEnd

namespace Relabel

/-- A token with other labels. -/
def token (m : Relabel) (t : Token) : Token :=
  ⟨t.kind, t.text, m.span t.span⟩

/-- A cursor with other labels. -/
def cursor (m : Relabel) (c : Cursor) : Cursor :=
  ⟨c.behind.map m.token, m.token c.current, c.ahead.map m.token, m.id c.nextId, m.file c.file⟩

/-- A diagnostic at another position. -/
def diagnostic (m : Relabel) (d : Diagnostic) : Diagnostic :=
  ⟨d.fault, m.position d.position⟩

/-- A halt with other labels. -/
def halt (m : Relabel) : Halt → Halt
  | .fault d => .fault (m.diagnostic d)
  | .exhausted => .exhausted

/-- What a run ends in, with other labels. -/
def result {α : Type} (m : Relabel) (relabel : α → α) :
    EStateM.Result Halt Cursor α → EStateM.Result Halt Cursor α
  | .ok value c => .ok (relabel value) (m.cursor c)
  | .error h c => .error (m.halt h) (m.cursor c)

/-- **A relabelling counts** when a number follows another exactly as before. -/
def Counts (m : Relabel) : Prop :=
  ∀ n, m.id (n + 1) = m.id n + 1

theorem counts_shift (distance : Nat) : (shift distance).Counts :=
  fun n => Nat.succ_add n distance

/-! ## What is seen of a relabelled cursor -/

section Cursor

variable (m : Relabel) (c : Cursor)

@[simp] theorem kind_cursor : (m.cursor c).kind = c.kind := rfl

@[simp] theorem here_cursor : (m.cursor c).here = m.position c.here := rfl

@[simp] theorem left_cursor : (m.cursor c).left = c.left.map m.token := rfl

theorem length_left_cursor : (m.cursor c).left.length = c.left.length := by
  rw [left_cursor, List.length_map]

@[simp] theorem peek_cursor (n : Nat) : (m.cursor c).peek n = c.peek n := by
  rw [Cursor.peek, Cursor.peek, left_cursor, List.getElem?_map]
  cases c.left[n]? <;> rfl

@[simp] theorem reached_cursor : (m.cursor c).reached = m.position c.reached := by
  unfold Cursor.reached cursor
  cases c.behind <;> rfl

@[simp] theorem next_cursor : (m.cursor c).next = m.cursor c.next := by
  obtain ⟨behind, current, ahead, nextId, file⟩ := c
  cases ahead <;> rfl

@[simp] theorem opensArguments_cursor : (m.cursor c).opensArguments = c.opensArguments := by
  unfold Cursor.opensArguments
  rw [left_cursor, List.map_map]
  rfl

end Cursor

end Relabel

namespace Parse

/-- **A relabelling carries the runs of an action to those of another**: from the relabelled cursor
the other ends in what the first ends in, relabelled. -/
def Carries {α : Type} (m : Relabel) (action moved : Parse α) (relabel : α → α) : Prop :=
  ∀ c, moved (m.cursor c) = m.result relabel (action c)

/-- A relabelling carries the runs of an action to runs of the same action. -/
abbrev Commutes {α : Type} (m : Relabel) (action : Parse α) (relabel : α → α) : Prop :=
  Carries m action action relabel

namespace Carries

variable {α β : Type} {m : Relabel} {action moved : Parse α} {relabel : α → α}
  {final : β → β}

theorem pure {value other : α} (same : relabel value = other) :
    Carries m (Pure.pure value) (Pure.pure other) relabel := by
  intro c
  cases same
  rfl

theorem halt {h other : Halt} (same : m.halt h = other) :
    Carries m (throw h) (throw other) relabel := by
  intro c
  cases same
  rfl

/-- **An action behind another**, compared from the relabelled value on. -/
theorem bind {next after : α → Parse β} (here : Carries m action moved relabel)
    (behind : ∀ value, Carries m (next value) (after (relabel value)) final) :
    Carries m (action >>= next) (moved >>= after) final := by
  intro c
  have front := here c
  change EStateM.bind moved after (m.cursor c) = m.result final (EStateM.bind action next c)
  unfold EStateM.bind
  rw [front]
  cases action c with
  | ok value between => exact behind value between
  | error h between => rfl

/-- An action behind one whose value has no labels. -/
theorem plain {next after : α → Parse β} (here : Carries m action moved fun value => value)
    (behind : ∀ value, Carries m (next value) (after value) final) :
    Carries m (action >>= next) (moved >>= after) final :=
  bind here behind

theorem ite {p : Prop} [Decidable p] {other otherMoved : Parse α}
    (yes : p → Carries m action moved relabel) (no : ¬ p → Carries m other otherMoved relabel) :
    Carries m (if p then action else other) (if p then moved else otherMoved) relabel := by
  by_cases holds : p
  · rw [if_pos holds, if_pos holds]
    exact yes holds
  · rw [if_neg holds, if_neg holds]
    exact no holds

theorem map {f after : α → β} (here : Carries m action moved relabel)
    (same : ∀ value, final (f value) = after (relabel value)) :
    Carries m (f <$> action) (after <$> moved) final := by
  rw [map_eq_pure_bind, map_eq_pure_bind]
  exact bind here fun value => pure (same value)

end Carries

open Token

variable {α : Type} {m : Relabel} {relabel : α → α}

/-! ## Single tokens -/

theorem commutes_get : Commutes m get m.cursor := fun _ => rfl

theorem commutes_kind : Commutes m kind fun kind => kind := fun _ => rfl

theorem commutes_here : Commutes m here m.position := fun _ => rfl

theorem carries_spanFrom (start : Position) :
    Carries m (spanFrom start) (spanFrom (m.position start)) m.span :=
  .bind commutes_get fun c => .pure (by rw [m.reached_cursor]; rfl)

theorem commutes_advance : Commutes m advance m.token := by
  intro c
  change EStateM.Result.ok (m.token c.current) (m.cursor c).next = _
  rw [m.next_cursor]
  rfl

theorem commutes_unexpected (expected : String) :
    Commutes m (unexpected expected) relabel :=
  .bind commutes_get fun _ => .halt rfl

theorem commutes_fail (fault : Fault) (position : Position) :
    Carries m (fail fault position) (fail fault (m.position position)) relabel :=
  .halt rfl

theorem commutes_exhausted : Commutes m exhausted relabel :=
  .halt rfl

theorem commutes_consume (kind : Kind) : Commutes m (consume kind) fun taken => taken :=
  .bind commutes_get fun _ => .ite
    (fun _ => .bind commutes_advance fun _ => .pure rfl) (fun _ => .pure rfl)

theorem commutes_expect (kind : Kind) : Commutes m (expect kind) m.token :=
  .bind commutes_get fun _ => .ite (fun _ => commutes_advance) (fun _ => commutes_unexpected _)

theorem commutes_separator (closing : Kind) : Commutes m (separator closing) fun done => done :=
  .bind commutes_get fun _ => .ite
    (fun _ => .bind commutes_advance fun _ => .pure rfl)
    (fun _ => .ite (fun _ => .pure rfl) (fun _ => commutes_unexpected _))

theorem commutes_freshId (counts : m.Counts) : Commutes m freshId m.id := by
  intro c
  have next : m.id (c.nextId + 1) = m.id c.nextId + 1 := counts c.nextId
  change EStateM.Result.ok (m.id c.nextId) { m.cursor c with nextId := m.id c.nextId + 1 } = _
  rw [← next]
  rfl

/-! ## Repetition -/

theorem commutes_repeatUpTo {holds : Cursor → Bool} {item : Parse α}
    (looks : ∀ c, holds (m.cursor c) = holds c) (each : Commutes m item relabel) (n : Nat) :
    Commutes m (repeatUpTo holds item n) (List.map relabel) := by
  induction n with
  | zero =>
    refine .bind commutes_get fun c => ?_
    rw [looks]
    exact .ite (fun _ => commutes_exhausted) (fun _ => .pure rfl)
  | succ n ih =>
    refine .bind commutes_get fun c => ?_
    rw [looks]
    refine .ite (fun _ => ?_) (fun _ => .pure rfl)
    exact .bind each fun first => .bind ih fun rest => .pure rfl

/-- **A repetition commutes** with a relabelling that its condition does not see. -/
theorem commutes_repeatWhile {holds : Cursor → Bool} {item : Parse α}
    (looks : ∀ c, holds (m.cursor c) = holds c) (each : Commutes m item relabel) :
    Commutes m (repeatWhile holds item) (List.map relabel) := by
  refine .bind commutes_get fun c => ?_
  rw [m.length_left_cursor]
  exact commutes_repeatUpTo looks each _

theorem commutes_repeatUntil {item : Parse α} (each : Commutes m item relabel) (closing : Kind) :
    Commutes m (repeatUntil closing item) (List.map relabel) :=
  commutes_repeatWhile (fun _ => rfl) each

theorem commutes_separated {item : Parse α} (each : Commutes m item relabel) (closing : Kind) :
    Commutes m (separated closing item) (List.map relabel) := by
  refine commutes_repeatUntil ?_ closing
  exact .bind each fun value => .plain (commutes_separator closing) fun _ => .pure rfl

theorem commutes_growWhile {holds : Cursor → Bool} {step : α → Parse α}
    (looks : ∀ c, holds (m.cursor c) = holds c)
    (each : ∀ value, Carries m (step value) (step (relabel value)) relabel) (value : α) :
    Carries m (growWhile holds step value) (growWhile holds step (relabel value)) relabel := by
  refine .bind commutes_get fun c => ?_
  rw [m.length_left_cursor]
  generalize c.left.length = n
  induction n generalizing value with
  | zero =>
    refine .bind commutes_get fun c => ?_
    rw [looks]
    exact .ite (fun _ => commutes_exhausted) (fun _ => .pure rfl)
  | succ n ih =>
    refine .bind commutes_get fun c => ?_
    rw [looks]
    exact .ite (fun _ => .bind (each value) ih) (fun _ => .pure rfl)

end Parse

/-! ## Names -/

/-- An identifier with other labels. -/
def Identifier.relabel (m : Relabel) : Identifier → Identifier
  | .plain text span => .plain text (m.span span)
  | .applied segment => .applied (segment.relabel m)

namespace Parse

variable {m : Relabel} {name : Parse Name}

theorem commutes_typeArguments (each : Commutes m name (Name.relabel m)) :
    Commutes m (typeArguments name) (List.map (Name.relabel m)) :=
  .bind (commutes_expect _) fun _ => .bind (commutes_separated each _) fun _ =>
    .bind (commutes_expect _) fun _ => .pure rfl

theorem commutes_identifierOf (counts : m.Counts) (each : Commutes m name (Name.relabel m)) :
    Commutes m (identifierOf name) (Identifier.relabel m) := by
  refine .bind (commutes_expect _) fun token => .bind commutes_get fun c => ?_
  rw [m.opensArguments_cursor]
  refine .ite (fun _ => ?_) (fun _ => .pure rfl)
  refine .bind (commutes_freshId counts) fun id => .bind (commutes_typeArguments each) fun names => ?_
  refine .bind (carries_spanFrom _) fun span => .pure ?_
  rw [Identifier.relabel, Segment.relabel, relabelNames_eq]
  rfl

theorem commutes_segmentOf (counts : m.Counts) (each : Commutes m name (Name.relabel m)) :
    Commutes m (segmentOf name) (Segment.relabel m) := by
  refine .bind (commutes_identifierOf counts each) fun found => ?_
  cases found with
  | plain text span => exact .bind (commutes_freshId counts) fun id => .pure rfl
  | applied segment => exact .pure rfl

theorem commutes_nameUpTo (counts : m.Counts) (n : Nat) :
    Commutes m (nameUpTo n) (Name.relabel m) := by
  induction n with
  | zero => exact commutes_exhausted
  | succ n ih =>
    have segment := commutes_segmentOf counts ih
    refine .bind commutes_here fun start => .bind segment fun first => ?_
    refine .bind (commutes_repeatWhile (fun _ => rfl) (.bind commutes_advance fun _ => segment))
      fun rest => .bind (carries_spanFrom _) fun span => .pure ?_
    rw [Name.relabel, relabelSegments_eq]
    rfl

/-- **Parsing a name commutes with relabelling.** -/
theorem commutes_name (counts : m.Counts) : Commutes m Parse.name (Name.relabel m) := by
  refine .bind commutes_get fun c => ?_
  rw [m.length_left_cursor]
  exact commutes_nameUpTo counts _

theorem commutes_identifier (counts : m.Counts) :
    Commutes m identifier (Identifier.relabel m) :=
  commutes_identifierOf counts (commutes_name counts)

theorem commutes_segment (counts : m.Counts) : Commutes m segment (Segment.relabel m) :=
  commutes_segmentOf counts (commutes_name counts)

theorem commutes_typeParameter (counts : m.Counts) :
    Commutes m typeParameter (TypeParameter.relabel m) := by
  have bound : Commutes m (some <$> Parse.name) (Option.map (Name.relabel m)) :=
    .map (commutes_name counts) fun _ => rfl
  refine .bind (commutes_expect _) fun token => .plain (commutes_consume _) fun bounded => ?_
  refine .ite (fun _ => ?_) (fun _ => ?_)
  · exact .bind bound fun _ => .plain (commutes_separator _) fun _ => .pure rfl
  · rw [pure_bind]
    exact .plain (commutes_separator _) fun _ => .pure rfl

theorem commutes_typeParameters (counts : m.Counts) :
    Commutes m typeParameters (List.map (TypeParameter.relabel m)) :=
  .plain (commutes_consume _) fun _ => .ite
    (fun _ => .bind (commutes_repeatUntil (commutes_typeParameter counts) _) fun _ =>
      .bind (commutes_expect _) fun _ => .pure rfl)
    (fun _ => .pure rfl)

theorem commutes_arrayMark : Commutes m arrayMark fun isArray => isArray :=
  .plain (commutes_consume _) fun _ => .ite
    (fun _ => .bind (commutes_expect _) fun _ => .pure rfl) (fun _ => .pure rfl)

end Parse

end FrontEnd

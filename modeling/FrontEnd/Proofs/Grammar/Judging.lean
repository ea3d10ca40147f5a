import FrontEnd.Grammar.Parse
import FrontEnd.Proofs.Action

/-!
# Judging runs

A run of an action starts at a cursor and ends well, with a value and a cursor, or it halts. A ground
says what a cursor has to be like, where a run may lead, and how it may halt (`Ground`); and on a
ground an action meets a condition on the value that it gives and the cursor that it ends at
(`Meets`). What is asked of a cursor at the start is asked of it at the end again, and where
runs lead is a way that can be gone on, so actions in a row meet what the last one does.

There is one rule for each way in which actions are put together. A judgement on actions is a ground
and a kind of condition, and these are its rules; it adds what is its own, which is mostly what a
single token gives it. On a ground where no run halts an action takes a word of kinds (`Takes`) or
yields from one of lexemes (`Yields`). Where nothing is said of runs that halt, it gives what is good
(`Parse.Gives`), ensures a shape (`Ensures`), consumes tokens that fit (`Consumes`), keeps their data
(`Parse.Keeps`) or delivers what was read on the way (`Parse.Delivers`); and where it halts with a
diagnostic of the grammar, it traces what it gives to the tokens (`Parse.Traces`).
-/

namespace FrontEnd

/-- **A ground for runs**: what holds of a cursor before and after, where a run leads, and how it may
halt. -/
structure Ground where
  holds : Cursor → Prop
  leads : Cursor → Cursor → Prop
  stops : Halt → Cursor → Prop
  refl : ∀ c, leads c c
  trans : ∀ {a b c}, leads a b → leads b c → leads a c

/-- A ground on which a run may lead anywhere. -/
def Ground.stopping (holds : Cursor → Prop) (stops : Halt → Cursor → Prop) : Ground where
  holds := holds
  leads _ _ := True
  stops := stops
  refl _ := trivial
  trans _ _ := trivial

/-- A ground on which a run may also halt as it likes. -/
def Ground.keeping (holds : Cursor → Prop) : Ground :=
  .stopping holds fun _ _ => True

/-- A ground anywhere, on which no run halts. -/
def Ground.sure : Ground :=
  .stopping (fun _ => True) fun _ _ => False

/-- **A ground on which nothing is said of runs that halt.** -/
class Ground.Lenient (ground : Ground) : Prop where
  stops : ∀ halt c, ground.stops halt c

instance (holds : Cursor → Prop) : (Ground.keeping holds).Lenient where
  stops _ _ := trivial

/-- **What a run from a cursor is met by** on a ground. -/
inductive Met {α : Type} (ground : Ground) (good : α → Cursor → Prop) (c : Cursor) :
    EStateM.Result Halt Cursor α → Prop
  | ended {value : α} {c' : Cursor} : ground.holds c' → ground.leads c c' → good value c' →
    Met ground good c (.ok value c')
  | halted {halt : Halt} {c' : Cursor} : ground.stops halt c' → Met ground good c (.error halt c')

/-- What a run is met by from further on it is met by from before. -/
theorem Met.before {α : Type} {ground : Ground} {good : α → Cursor → Prop} {b c : Cursor}
    {result : EStateM.Result Halt Cursor α} (met : Met ground good c result)
    (leads : ground.leads b c) : Met ground good b result := by
  cases met with
  | ended holds further isGood => exact .ended holds (ground.trans leads further) isGood
  | halted stops => exact .halted stops

/-- **An action meets a condition** on its value and the cursor that it ends at, when its run does
from a cursor of the ground. -/
def Meets {α : Type} (ground : Ground) (action : Parse α) (good : α → Cursor → Prop)
    (c : Cursor) : Prop :=
  ground.holds c → Met ground good c (action c)

namespace Meets

open Token

variable {α β : Type} {ground : Ground} {action other : Parse α} {good mid : α → Cursor → Prop}
  {final : β → Cursor → Prop} {c c' : Cursor}

/-- What is known of a run that ends well. -/
theorem of_eq_ok {value : α} (meets : Meets ground action good c) (holds : ground.holds c)
    (run : action c = .ok value c') : ground.holds c' ∧ ground.leads c c' ∧ good value c' := by
  have met := meets holds
  rw [run] at met
  cases met with
  | ended holds leads isGood => exact ⟨holds, leads, isGood⟩

/-- Where no run halts, there is one that ends well. -/
theorem exists_ok (meets : Meets .sure action good c) :
    ∃ value c', action c = .ok value c' ∧ good value c' := by
  have met := meets trivial
  cases run : action c with
  | ok value c' =>
    rw [run] at met
    cases met with
    | ended _ _ isGood => exact ⟨value, c', rfl, isGood⟩
  | error halt c' =>
    rw [run] at met
    cases met with
    | halted stops => exact stops.elim

/-- Where nothing is said of runs that halt, those that end well are all there is to look at. -/
theorem of_runs [lenient : ground.Lenient] (runs : ground.holds c → ∀ value c',
    action c = .ok value c' → ground.holds c' ∧ ground.leads c c' ∧ good value c') :
    Meets ground action good c := by
  intro holds
  cases run : action c with
  | ok value c' =>
    obtain ⟨kept, leads, isGood⟩ := runs holds value c' run
    exact .ended kept leads isGood
  | error halt c' => exact .halted (lenient.stops halt c')

/-- What holds of the cursor may be used. -/
theorem known (here : ground.holds c → Meets ground action good c) : Meets ground action good c :=
  fun holds => here holds holds

/-- Where the run has led may be used. -/
theorem led (here : Meets ground action good c) :
    Meets ground action (fun value c' => ground.leads c c' ∧ good value c') c := by
  intro holds
  have met := here holds
  generalize action c = result at met
  cases met with
  | ended holds leads isGood => exact .ended holds leads ⟨leads, isGood⟩
  | halted stops => exact .halted stops

/-! ### Actions in a row -/

theorem pure {value : α} (isGood : good value c) : Meets ground (Pure.pure value) good c :=
  fun holds => .ended holds (ground.refl c) isGood

theorem stop {halt : Halt} (stops : ground.holds c → ground.stops halt c) :
    Meets ground (throw halt : Parse α) good c :=
  fun holds => .halted (stops holds)

theorem halt [lenient : ground.Lenient] {halt : Halt} :
    Meets ground (throw halt : Parse α) good c :=
  stop fun _ => lenient.stops halt c

/-- **An action behind another** runs from where the first has led. -/
theorem onward {next : α → Parse β} (here : Meets ground action mid c)
    (behind : ∀ value c', ground.leads c c' → mid value c' → Meets ground (next value) final c') :
    Meets ground (action >>= next) final c := by
  intro holds
  have first := here holds
  change Met ground final c (EStateM.bind action next c)
  unfold EStateM.bind
  generalize action c = result at first
  cases first with
  | ended holds leads isMid => exact (behind _ _ leads isMid holds).before leads
  | halted stops => exact .halted stops

/-- An action behind another, wherever that has led. -/
theorem bind {next : α → Parse β} (here : Meets ground action mid c)
    (behind : ∀ value c', mid value c' → Meets ground (next value) final c') :
    Meets ground (action >>= next) final c :=
  onward here fun value c' _ => behind value c'

/-- An action whose value matters to nothing. -/
theorem skip {next : α → Parse β} (here : Meets ground action (fun _ _ => True) c)
    (behind : ∀ value c', Meets ground (next value) final c') :
    Meets ground (action >>= next) final c :=
  bind here fun value c' _ => behind value c'

theorem weaken (here : Meets ground action mid c)
    (implies : ∀ value c', mid value c' → good value c') : Meets ground action good c := by
  intro holds
  have met := here holds
  generalize action c = result at met
  cases met with
  | ended holds leads isMid => exact .ended holds leads (implies _ _ isMid)
  | halted stops => exact .halted stops

theorem map {f : α → β} (here : Meets ground action mid c)
    (implies : ∀ value c', mid value c' → final (f value) c') :
    Meets ground (f <$> action) final c := by
  rw [map_eq_pure_bind]
  exact bind here fun value c' isMid => pure (implies value c' isMid)

theorem ite {p : Prop} [Decidable p] (yes : p → Meets ground action good c)
    (no : ¬ p → Meets ground other good c) :
    Meets ground (if p then action else other) good c := by
  split
  next holds => exact yes holds
  next fails => exact no fails

/-! ### Single steps -/

/-- An action that looks at the cursor. -/
theorem look {next : Cursor → Parse β} (behind : Meets ground (next c) final c) :
    Meets ground (get >>= next) final c :=
  behind

/-- An action that looks at the kind of the current token. -/
theorem onKind {next : Kind → Parse β} (behind : Meets ground (next c.kind) final c) :
    Meets ground (Parse.kind >>= next) final c :=
  behind

/-- An action that marks the start of the current token. -/
theorem start {next : Position → Parse β} (behind : Meets ground (next c.here) final c) :
    Meets ground (Parse.here >>= next) final c :=
  behind

/-- A span ends where the cursor has arrived. -/
theorem close {next : Span → Parse β} {start : Position}
    (behind : Meets ground (next ⟨start, c.reached⟩) final c) :
    Meets ground (Parse.spanFrom start >>= next) final c :=
  behind

/-- An action behind a token that is taken whatever it is. -/
theorem token {next : Token → Parse β} (kept : ground.holds c → ground.holds c.next)
    (leads : ground.leads c c.next)
    (behind : ground.holds c → Meets ground (next c.current) final c.next) :
    Meets ground (Parse.advance >>= next) final c :=
  fun holds => (behind holds (kept holds)).before leads

/-- An action behind a number that is drawn. -/
theorem drawn {next : Nat → Parse β}
    (kept : ground.holds c → ground.holds { c with nextId := c.nextId + 1 })
    (leads : ground.leads c { c with nextId := c.nextId + 1 })
    (behind : Meets ground (next c.nextId) final { c with nextId := c.nextId + 1 }) :
    Meets ground (Parse.freshId >>= next) final c :=
  fun holds => (behind (kept holds)).before leads

/-! ### Repetition -/

section Repetition

variable {goesOn : Cursor → Bool} {item : Parse α} {step : α → Parse α}

/-- **A repeated action** gives a row of values, when each value goes in front of every row behind
it. -/
theorem repeatUpTo (keeps : Cursor → Prop) (row : Cursor → List α → Cursor → Prop)
    (spent : ∀ c, ground.holds c → ground.stops .exhausted c)
    (none : ∀ c, keeps c → row c [] c)
    (each : ∀ c, keeps c → goesOn c = true → Meets ground item (fun value c' =>
      keeps c' ∧ ∀ rest last, row c' rest last → row c (value :: rest) last) c)
    (n : Nat) (kept : keeps c) : Meets ground (Parse.repeatUpTo goesOn item n) (row c) c := by
  induction n generalizing c with
  | zero => exact look (ite (fun _ => stop (spent c)) fun _ => pure (none c kept))
  | succ n ih =>
    refine look (ite (fun further => ?_) fun _ => pure (none c kept))
    refine bind (each c kept further) fun first c' ⟨keptThen, inFront⟩ => ?_
    exact bind (ih keptThen) fun rest last isRow => pure (inFront rest last isRow)

/-- A repeated action gives good values, when it gives one where it goes on. -/
theorem forall_repeatWhile {good : α → Prop}
    (spent : ∀ c, ground.holds c → ground.stops .exhausted c)
    (each : ∀ c, goesOn c = true → Meets ground item (fun value _ => good value) c) :
    Meets ground (Parse.repeatWhile goesOn item) (fun values _ => ∀ value ∈ values, good value) c := by
  refine look (repeatUpTo (fun _ => True) (fun _ values _ => ∀ value ∈ values, good value) spent
    (fun _ _ => List.forall_mem_nil _) (fun c _ further => ?_) _ trivial)
  exact (each c further).weaken fun value c' isGood =>
    ⟨trivial, fun rest last areGood => List.forall_mem_cons.2 ⟨isGood, areGood⟩⟩

/-- **A value that grows** stays good when each step keeps it so. -/
theorem growUpTo (spent : ∀ c, ground.holds c → ground.stops .exhausted c)
    (each : ∀ value c, goesOn c = true → good value c → Meets ground (step value) good c)
    (n : Nat) {value : α} (isGood : good value c) :
    Meets ground (Parse.growUpTo goesOn step n value) good c := by
  induction n generalizing c value with
  | zero => exact look (ite (fun _ => stop (spent c)) fun _ => pure isGood)
  | succ n ih =>
    refine look (ite (fun further => ?_) fun _ => pure isGood)
    exact bind (each value c further isGood) fun next c' nextGood => ih nextGood

theorem growWhile (spent : ∀ c, ground.holds c → ground.stops .exhausted c)
    (each : ∀ value c, goesOn c = true → good value c → Meets ground (step value) good c)
    {value : α} (isGood : good value c) :
    Meets ground (Parse.growWhile goesOn step value) good c :=
  look (growUpTo spent each _ isGood)

end Repetition

end Meets

end FrontEnd

import FrontEnd.Diagnostic.Basic
import FrontEnd.Proofs.Action

/-!
# Guarded actions

A partial operation gives a value or misses it, as the element of a list at an index does. An action
is guarded when it is written with such operations and nothing stands in for a value that is missed:
it ends, it finds a fault, or it has no result at all (`Guarded`).

A guarded action answers an action when from states that belong together it misses no value: both
find the same fault, or both end, and their values and states belong together (`Answers`). Actions in
a row are answered by answers in a row, so what is to be shown of a pass is shown of its single
operations.

**The law** (`Answers.bind`): an answer, and behind it an answer for all that belongs together, is an
answer to the two actions in a row.
-/

namespace FrontEnd

/-- **A result that partial operations may miss**: a value, what ended a run early, or nothing. -/
abbrev CheckedFor (ε α : Type) :=
  ExceptT ε Option α

/-- A result that a fault may end and partial operations may miss. -/
abbrev Checked (α : Type) :=
  CheckedFor Diagnostic α

/-- **A guarded action**: a state is changed by partial operations. -/
abbrev Guarded (σ α : Type) :=
  StateT σ Checked α

/-- A partial operation as a result. -/
def demand {α : Type} (found : Option α) : Checked α :=
  found.map .ok

/-- **What answers a run of an action**: the same fault, or an end of both with what belongs
together. -/
inductive Answered {σ τ α β : Type} (post : α → σ → β → τ → Prop) :
    EStateM.Result Diagnostic σ α → Option (Except Diagnostic (β × τ)) → Prop
  | ended {a : α} {s : σ} {b : β} {t : τ} : post a s b t →
    Answered post (.ok a s) (some (.ok (b, t)))
  | halted {d : Diagnostic} {s : σ} : Answered post (.error d s) (some (.error d))

/-- **A guarded action answers an action** from states that belong together. -/
def Answers {σ τ α β : Type} (pre : σ → τ → Prop) (action : EStateM Diagnostic σ α)
    (guarded : Guarded τ β) (post : α → σ → β → τ → Prop) : Prop :=
  ∀ ⦃s t⦄, pre s t → Answered post (action s) (guarded t)

/-! ## Results in a row -/

section Results

variable {σ ε α β : Type}

/-- What stands behind a value is what is made of it. -/
theorem Checked.bind_of_ok {x : CheckedFor ε α} {next : α → CheckedFor ε β} {a : α}
    (h : x = some (.ok a)) : x >>= next = next a := by
  rw [h]
  rfl

/-- Nothing stands behind a run that was ended. -/
theorem Checked.bind_of_error {x : CheckedFor ε α} {next : α → CheckedFor ε β} {e : ε}
    (h : x = some (.error e)) : x >>= next = some (.error e) := by
  rw [h]
  rfl

/-- **Results in a row miss nothing** when neither does, the second behind a value of the first. -/
theorem Checked.bind_eq {x : CheckedFor ε α} {plain : Except ε α} {next : α → CheckedFor ε β}
    {plainNext : α → Except ε β} (first : x = some plain)
    (behind : ∀ a, plain = .ok a → next a = some (plainNext a)) :
    x >>= next = some (plain >>= plainNext) := by
  cases plain with
  | ok a =>
    rw [Checked.bind_of_ok first, behind a rfl]
    rfl
  | error e =>
    rw [Checked.bind_of_error first]
    rfl

theorem demand_some (a : α) : demand (some a) = some (.ok a) := rfl

/-- A guarded action in front of another, taken apart. -/
theorem Guarded.bind_eq (x : Guarded σ α) (next : α → Guarded σ β) (t : σ) :
    (x >>= next) t = (x t >>= fun r => next r.1 r.2 : Checked (β × σ)) := rfl

/-- Results for the elements of a list, in which nothing is missed, are those without partial
operations. -/
theorem Checked.forM_eq {values : List α} {check : α → CheckedFor ε Unit}
    {plain : α → Except ε Unit} (each : ∀ a ∈ values, check a = some (plain a)) :
    values.forM check = some (values.forM plain) := by
  induction values with
  | nil => rfl
  | cons first rest ih =>
    have onRest := ih fun a mem => each a (List.mem_cons_of_mem _ mem)
    exact Checked.bind_eq (each first List.mem_cons_self) fun _ _ => onRest

end Results

/-! ## Answers in a row -/

namespace Answers

variable {σ τ α β γ δ : Type} {pre : σ → τ → Prop} {action : EStateM Diagnostic σ α}
  {guarded : Guarded τ β} {mid : α → σ → β → τ → Prop} {post : γ → σ → δ → τ → Prop}

/-- **How a run is answered**: both end with what belongs together, or both find the same fault. -/
theorem outcome (answers : Answers pre action guarded mid) {s : σ} {t : τ} (start : pre s t) :
    (∃ a s' b t', action s = .ok a s' ∧ guarded t = some (.ok (b, t')) ∧ mid a s' b t') ∨
      ∃ d s', action s = .error d s' ∧ guarded t = some (.error d) := by
  have answered := answers start
  generalize action s = result, guarded t = other at answered
  cases answered with
  | ended holds => exact .inl ⟨_, _, _, _, rfl, rfl, holds⟩
  | halted => exact .inr ⟨_, _, rfl, rfl⟩

theorem pure {a : γ} {b : δ} (holds : ∀ s t, pre s t → post a s b t) :
    Answers pre (Pure.pure a) (Pure.pure b) post := by
  intro s t start
  exact .ended (holds s t start)

theorem halt (d : Diagnostic) : Answers pre (throw d) (throw d) post := by
  intro s t _
  exact .halted

/-- **An answer behind an answer** may use what belongs together between them. -/
theorem bind {next : α → EStateM Diagnostic σ γ} {further : β → Guarded τ δ}
    (first : Answers pre action guarded mid)
    (behind : ∀ a b, Answers (fun s t => mid a s b t) (next a) (further b) post) :
    Answers pre (action >>= next) (guarded >>= further) post := by
  intro s t start
  have answered := first start
  show Answered post (EStateM.bind action next s) _
  rw [Guarded.bind_eq]
  unfold EStateM.bind
  generalize action s = result, guarded t = other at answered
  cases answered with
  | @ended a s' b t' holds =>
    have later := behind a b holds
    rw [Checked.bind_of_ok rfl]
    exact later
  | halted =>
    rw [Checked.bind_of_error rfl]
    exact .halted

/-- **A partial operation that has its value** goes before an answer. -/
theorem demand {action : EStateM Diagnostic σ γ} {found : Option β} {further : β → Guarded τ δ}
    {value : β} (here : found = some value) (behind : Answers pre action (further value) post) :
    Answers pre action (liftM (FrontEnd.demand found) >>= further) post := by
  intro s t start
  subst here
  exact behind start

/-- Less may be presupposed than is there. -/
theorem weaken {strong : σ → τ → Prop} (answers : Answers pre action guarded mid)
    (implies : ∀ s t, strong s t → pre s t) : Answers strong action guarded mid := by
  intro s t start
  exact answers (implies s t start)

/-- More may belong together than is asked for. -/
theorem relax {wider : α → σ → β → τ → Prop} (answers : Answers pre action guarded mid)
    (implies : ∀ a s b t, mid a s b t → wider a s b t) : Answers pre action guarded wider := by
  intro s t start
  have answered := answers start
  generalize action s = result, guarded t = other at answered
  cases answered with
  | ended holds => exact .ended (implies _ _ _ _ holds)
  | halted => exact .halted

/-- Changes of the states that keep them together. -/
theorem change {f : σ → σ} {g : τ → τ} {post : Unit → σ → Unit → τ → Prop}
    (holds : ∀ s t, pre s t → post () (f s) () (g t)) : Answers pre (modify f) (modify g) post := by
  intro s t start
  exact .ended (holds s t start)

/-- An answer to an action is one to the action whose value is dropped. -/
theorem drop (first : Answers pre action guarded mid) :
    Answers pre (discard action) guarded fun _ s b t => ∃ a, mid a s b t := by
  intro s t start
  have answered := first start
  show Answered _ (EStateM.map (fun _ => ()) action s) _
  unfold EStateM.map
  generalize action s = result, guarded t = other at answered
  cases answered with
  | ended holds => exact .ended ⟨_, holds⟩
  | halted => exact .halted

/-- The value of an answer may be dropped too. -/
theorem dropGuarded (first : Answers pre action guarded mid) :
    Answers pre action (discard guarded) fun a s _ t => ∃ b, mid a s b t := by
  intro s t start
  have answered := first start
  show Answered _ _ (guarded t >>= fun r => Pure.pure ((), r.2) : Checked (Unit × τ))
  generalize action s = result, guarded t = other at answered
  cases answered with
  | ended holds => exact .ended ⟨_, holds⟩
  | halted => exact .halted

section Lists

variable {act : γ → EStateM Diagnostic σ Unit}

/-- An action for each element of a list is answered by answers for the elements, if what belongs
together before one does so behind it. -/
theorem forM {values : List γ} {check : γ → Guarded τ Unit}
    (each : ∀ value ∈ values, Answers pre (act value) (check value) fun _ s _ t => pre s t) :
    Answers pre (values.forM act) (values.forM check) fun _ s _ t => pre s t := by
  induction values with
  | nil => exact .pure fun _ _ holds => holds
  | cons first rest ih =>
    have onRest := ih fun value mem => each value (List.mem_cons_of_mem _ mem)
    exact .bind (each first List.mem_cons_self) fun _ _ => onRest

/-- An action for each of what is made of elements is answered by answers for the elements. -/
theorem forM_map {values : List δ} {make : δ → γ} {check : δ → Guarded τ Unit}
    (each : ∀ value ∈ values,
      Answers pre (act (make value)) (check value) fun _ s _ t => pre s t) :
    Answers pre ((values.map make).forM act) (values.forM check) fun _ s _ t => pre s t := by
  have same : (values.map make).forM act = values.forM fun value => act (make value) :=
    List.forM_map ..
  rw [same]
  exact .forM each

/-- An action for each element of two lists is answered by answers for each list. -/
theorem forM_append {first second : List γ} {check : Guarded τ β} {further : β → Guarded τ δ}
    {mid : β → σ → τ → Prop} {post : Unit → σ → δ → τ → Prop}
    (onFirst : Answers pre (first.forM act) check fun _ s b t => mid b s t)
    (onSecond : ∀ b, Answers (mid b) (second.forM act) (further b) post) :
    Answers pre ((first ++ second).forM act) (check >>= further) post := by
  have split : (first ++ second).forM act = first.forM act >>= fun _ => second.forM act :=
    List.forM_append ..
  rw [split]
  exact .bind onFirst fun _ b => onSecond b

/-- An action for each of what elements of a list give is answered by answers for the elements. -/
theorem forM_flatMap {values : List δ} {gives : δ → List γ} {check : δ → Guarded τ Unit}
    (each : ∀ value ∈ values,
      Answers pre ((gives value).forM act) (check value) fun _ s _ t => pre s t) :
    Answers pre ((values.flatMap gives).forM act) (values.forM check) fun _ s _ t => pre s t := by
  induction values with
  | nil => exact .pure fun _ _ holds => holds
  | cons first rest ih =>
    have onRest := ih fun value mem => each value (List.mem_cons_of_mem _ mem)
    exact .forM_append (each first List.mem_cons_self) fun _ => onRest

end Lists

end Answers

end FrontEnd

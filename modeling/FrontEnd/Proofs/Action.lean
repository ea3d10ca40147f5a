import FrontEnd.Diagnostic.Basic

/-!
# Runs of actions

The actions of the library carry a state and may halt. A run of two actions in a row ends well when
the first does and the second does from where the first ended, so a successful run can be taken
apart action by action. It halts when the first does, or the second from where the first ended.
-/

namespace FrontEnd

variable {ε σ α β : Type}

/-- **A run of two actions in a row**, taken apart. -/
theorem bind_eq_ok {action : EStateM ε σ α} {next : α → EStateM ε σ β} {s t : σ} {b : β} :
    (action >>= next) s = .ok b t ↔ ∃ a r, action s = .ok a r ∧ next a r = .ok b t := by
  change EStateM.bind action next s = .ok b t ↔ _
  unfold EStateM.bind
  cases action s with
  | ok a r =>
    constructor
    · intro h
      exact ⟨a, r, rfl, h⟩
    · rintro ⟨a', r', same, h⟩
      cases same
      exact h
  | error e r => simp

/-- **A run of two actions in a row that halts**, taken apart. -/
theorem bind_eq_error {action : EStateM ε σ α} {next : α → EStateM ε σ β} {s t : σ} {e : ε} :
    (action >>= next) s = .error e t ↔
      action s = .error e t ∨ ∃ a r, action s = .ok a r ∧ next a r = .error e t := by
  change EStateM.bind action next s = .error e t ↔ _
  unfold EStateM.bind
  cases action s with
  | ok a r =>
    constructor
    · intro h
      exact .inr ⟨a, r, rfl, h⟩
    · rintro (h | ⟨a', r', same, h⟩)
      · cases h
      · cases same
        exact h
  | error e r => simp

/-- A result that passes a check is one, and passes it. -/
theorem exists_ok_of_any {result : Except ε α} {check : α → Bool}
    (passes : result.toOption.any check = true) : ∃ a, result = .ok a ∧ check a = true := by
  cases result with
  | ok a => exact ⟨a, rfl, passes⟩
  | error e => cases passes

/-- The fault that a result was ended with, if it was. -/
def faultOf? : Except Halt α → Option Diagnostic
  | .error (.fault d) => some d
  | _ => none

/-- A result whose fault passes a check was ended with a fault that passes it. -/
theorem exists_fault_of_any {result : Except Halt α} {check : Diagnostic → Bool}
    (passes : (faultOf? result).any check = true) :
    ∃ d, result = .error (.fault d) ∧ check d = true := by
  cases result with
  | ok value => cases passes
  | error halt =>
    cases halt with
    | fault d => exact ⟨d, rfl, passes⟩
    | exhausted => cases passes

/-- Two results in a row are a fault when the first is, or the second behind it. -/
theorem except_bind_eq_error {x : Except ε α} {next : α → Except ε β} {e : ε} :
    x >>= next = .error e ↔ x = .error e ∨ ∃ a, x = .ok a ∧ next a = .error e := by
  cases x with
  | ok a =>
    constructor
    · intro h
      exact .inr ⟨a, rfl, h⟩
    · rintro (h | ⟨a', same, h⟩)
      · cases h
      · cases same
        exact h
  | error e' =>
    change Except.error e' = .error e ↔ _
    simp

/-- An action that only gives a value leaves the state as it is. -/
theorem pure_eq_ok {a b : α} {s t : σ} :
    (pure a : EStateM ε σ α) s = .ok b t ↔ a = b ∧ s = t := by
  change (EStateM.Result.ok a s : EStateM.Result ε σ α) = .ok b t ↔ _
  simp

/-- An action behind a look at the state goes on from that state. -/
theorem get_bind (next : σ → EStateM ε σ α) (s : σ) : (get >>= next) s = next s s := rfl

/-- An action that halts gives no value. -/
theorem throw_ne_ok {e : ε} {a : α} {s t : σ} : (throw e : EStateM ε σ α) s ≠ .ok a t := by
  intro h
  cases h

/-- An action whose value is dropped. -/
theorem discard_eq_ok {action : EStateM ε σ α} {s t : σ} :
    discard action s = .ok () t ↔ ∃ a, action s = .ok a t := by
  change EStateM.map (fun _ => ()) action s = .ok () t ↔ _
  unfold EStateM.map
  cases action s <;> simp

theorem forM_nil_eq_ok {act : α → EStateM ε σ Unit} {s t : σ} :
    [].forM act s = .ok () t ↔ s = t := by
  change (pure () : EStateM ε σ Unit) s = .ok () t ↔ _
  simp [pure_eq_ok]

/-- **An action for each element of a list**, taken apart at the first. -/
theorem forM_cons_eq_ok {first : α} {rest : List α} {act : α → EStateM ε σ Unit} {s t : σ} :
    (first :: rest).forM act s = .ok () t ↔
      ∃ r, act first s = .ok () r ∧ rest.forM act r = .ok () t := by
  change (act first >>= fun _ => rest.forM act) s = .ok () t ↔ _
  rw [bind_eq_ok]
  constructor
  · rintro ⟨⟨⟩, r, firstRun, restRun⟩
    exact ⟨r, firstRun, restRun⟩
  · rintro ⟨r, firstRun, restRun⟩
    exact ⟨(), r, firstRun, restRun⟩

end FrontEnd

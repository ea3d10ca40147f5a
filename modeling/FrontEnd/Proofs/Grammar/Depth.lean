import FrontEnd.Proofs.Grammar.ProgressFile

/-!
# The depth of an expression

An expression is parsed with a bound on how deep it nests. An action that ends well within a bound
ends well within every greater one, with the same value and at the same place, for the bound is only
ever looked at where it is met (`Within`).

**The law** (`Parse.within_exprUpTo`): a greater depth changes no expression.
-/

namespace FrontEnd

/-- **An action ends well wherever another does**, with the same value and at the same place. -/
def Within {α : Type} (other action : Parse α) : Prop :=
  ∀ ⦃c c' : Cursor⦄ ⦃value : α⦄, other c = .ok value c' → action c = .ok value c'

namespace Within

variable {α β : Type} {other action : Parse α} {next next' : α → Parse β}

theorem refl (action : Parse α) : Within action action :=
  fun _ _ _ run => run

/-- Actions in a row end well where those of another row do. -/
theorem bind (first : Within other action) (behind : ∀ value, Within (next value) (next' value)) :
    Within (other >>= next) (action >>= next') := by
  intro c c' value run
  obtain ⟨found, between, here, later⟩ := bind_eq_ok.1 run
  exact bind_eq_ok.2 ⟨found, between, first here, behind found later⟩

/-- Actions behind one that both rows begin with. -/
theorem further (action : Parse α) (behind : ∀ value, Within (next value) (next' value)) :
    Within (action >>= next) (action >>= next') :=
  bind (.refl action) behind

/-- Actions in front of one that both rows end with. -/
theorem before (first : Within other action) (next : α → Parse β) :
    Within (other >>= next) (action >>= next) :=
  bind first fun value => .refl (next value)

theorem ite {p : Prop} [Decidable p] {other' action' : Parse α} (yes : Within other action)
    (no : Within other' action') :
    Within (if p then other else other') (if p then action else action') := by
  split
  · exact yes
  · exact no

end Within

namespace Parse

open Token

section Repetition

variable {α : Type} {holds : Cursor → Bool} {item item' : Parse α} {step step' : α → Parse α}

theorem within_repeatUpTo (each : Within item item') (n : Nat) :
    Within (repeatUpTo holds item n) (repeatUpTo holds item' n) := by
  induction n with
  | zero => exact .refl _
  | succ n ih => exact .further get fun c => .ite (.bind each fun _ => .before ih _) (.refl _)

theorem within_separated {closing : Kind} (each : Within item item') :
    Within (separated closing item) (separated closing item') :=
  .further get fun _ => within_repeatUpTo (.before each _) _

theorem within_growUpTo (each : ∀ value, Within (step value) (step' value)) (n : Nat) (value : α) :
    Within (growUpTo holds step n value) (growUpTo holds step' n value) := by
  induction n generalizing value with
  | zero => exact .refl _
  | succ n ih => exact .further get fun c => .ite (.bind (each value) ih) (.refl _)

theorem within_growWhile (each : ∀ value, Within (step value) (step' value)) (value : α) :
    Within (growWhile holds step value) (growWhile holds step' value) :=
  .further get fun _ => within_growUpTo each _ value

end Repetition

section Inner

variable {expr expr' : Precedence → Parse Expr} (inner : ∀ p, Within (expr p) (expr' p))

include inner

theorem within_sign : Within (sign expr) (sign expr') :=
  .further advance fun _ => .before (inner _) _

theorem within_group : Within (group expr) (group expr') :=
  .further advance fun _ => .before (inner _) _

theorem within_fieldValue : Within (fieldValue expr) (fieldValue expr') := by
  refine .further _ fun _ => .further _ fun token => .further kind fun k => ?_
  split
  · exact .refl _
  · exact .refl _
  · exact .further _ fun _ => .before (inner _) _

theorem within_structLiteral : Within (structLiteral expr) (structLiteral expr') :=
  .further here fun _ => .further _ fun _ => .further _ fun _ =>
    .before (within_separated (within_fieldValue inner)) _

theorem within_arrayLiteral : Within (arrayLiteral expr) (arrayLiteral expr') :=
  .further here fun _ => .further _ fun _ => .before (within_separated (inner _)) _

theorem within_lead (form : Lead) : Within (lead expr form) (lead expr' form) := by
  cases form with
  | primary => exact .refl _
  | sign => exact within_sign inner
  | group => exact within_group inner
  | structLiteral => exact within_structLiteral inner
  | arrayLiteral => exact within_arrayLiteral inner

theorem within_opening (g : Grammar) : Within (opening g expr) (opening g expr') := by
  refine .further get fun c => ?_
  cases g.lead c.kind with
  | none => exact .refl _
  | some form => exact within_lead inner form

theorem within_binary (left : Expr) (precedence : Precedence) :
    Within (binary expr left precedence) (binary expr' left precedence) := by
  refine .further advance fun token => ?_
  cases Operator.ofKind? token.kind with
  | none => exact .refl _
  | some operator => exact .before (inner _) _

theorem within_call (left : Expr) : Within (call expr left) (call expr' left) :=
  .further advance fun _ => .before (within_separated (inner _)) _

theorem within_index (left : Expr) : Within (index expr left) (index expr' left) :=
  .further advance fun _ => .before (inner _) _

theorem within_extend (g : Grammar) (left : Expr) :
    Within (extend g expr left) (extend g expr' left) := by
  refine .further kind fun k => ?_
  cases g.follow k with
  | none => exact .refl _
  | some form =>
    cases form with
    | binary => exact within_binary inner left _
    | call => exact within_call inner left
    | index => exact within_index inner left
    | member => exact .refl _

end Inner

/-- **A greater depth changes no expression.** -/
theorem within_exprUpTo (g : Grammar) {n m : Nat} (le : n ≤ m) (precedence : Precedence) :
    Within (exprUpTo g n precedence) (exprUpTo g m precedence) := by
  induction n generalizing m precedence with
  | zero =>
    intro c c' value run
    cases run
  | succ n ih =>
    obtain ⟨m, rfl⟩ := Nat.exists_eq_add_of_le' (Nat.le_trans (Nat.le_add_left 1 n) le)
    have inner (p : Precedence) := ih (Nat.le_of_succ_le_succ le) p
    exact .bind (within_opening inner g) fun first => within_growWhile (within_extend inner g) first

end Parse

end FrontEnd

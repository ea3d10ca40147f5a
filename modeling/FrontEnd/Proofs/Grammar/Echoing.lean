import FrontEnd.Proofs.Grammar.Agreement
import FrontEnd.Proofs.Program.BareName

/-!
# Tokens read again in another place

The same tokens may stand in front of different ones: an expression in front of a `)` that ends the
source, and the same expression in a list, where a comma and further elements follow. A run over the
tokens in the first place is *echoed* in the second (`Parse.Echoes`) when the other run takes the same
tokens and gives a value that is alike.

An action looks at the current token, and two things reach further. The `[` of an index looks at the
token behind it; so the tokens must not end in a `[`, which no action leaves as the last one that it
has taken. And behind an identifier the lookahead reads on. The token that follows in the first place
is one that no list of type arguments has, so a list found there lies within the tokens. If the second
place has such a token too, no list is found there that was not found before; if not, that none is
found is what an echo presupposes (`Parting.Clear`).

This module has the rules, and the actions for single tokens and for repetition.
-/

namespace FrontEnd

open Token Lookahead

/-! ## Lists of type arguments -/

namespace Lookahead

/-- The kinds that a list of type arguments is made of. -/
def inList : Kind → Bool
  | .less | .greater | .comma | .dot | .identifier => true
  | _ => false

theorem Word.inList {p : Part} {w : List Kind} (h : Word p w) : ∀ k ∈ w, inList k = true := by
  induction h with
  | list _ ih =>
    exact List.forall_mem_cons.2 ⟨rfl, List.forall_mem_append.2 ⟨ih, List.forall_mem_singleton.2 rfl⟩⟩
  | last _ ih => exact ih
  | trailing _ ih => exact List.forall_mem_append.2 ⟨ih, List.forall_mem_singleton.2 rfl⟩
  | more _ _ ih ihMore =>
    exact List.forall_mem_append.2 ⟨ih, List.forall_mem_cons.2 ⟨rfl, ihMore⟩⟩
  | plain => exact List.forall_mem_singleton.2 rfl
  | applied _ ih => exact List.forall_mem_cons.2 ⟨rfl, ih⟩
  | dotted _ ih => exact List.forall_mem_cons.2 ⟨rfl, List.forall_mem_cons.2 ⟨rfl, ih⟩⟩

/-- **A list in front of a kind that no list has** lies in what stands in front of this kind, so it
is found there whatever follows. -/
theorem isSome_afterList?_append {k : Kind} {front behind : List Kind} (other : inList k = false)
    (found : (afterList? (front ++ k :: behind)).isSome) (further : List Kind) :
    (afterList? (front ++ further)).isSome := by
  obtain ⟨rest, found⟩ := Option.isSome_iff_exists.1 found
  obtain ⟨l, list, split⟩ := afterList?_eq_some_iff.1 found
  obtain ⟨later, rfl⟩ : ∃ later, front = l ++ later := by
    rcases List.append_eq_append_iff.1 split with ⟨u, longer, split⟩ | ⟨later, whole, -⟩
    · cases u with
      | nil => exact ⟨[], by rw [longer, List.append_nil, List.append_nil]⟩
      | cons first u =>
        obtain ⟨rfl, -⟩ := List.cons.inj split
        have mem : k ∈ l := by simp [longer]
        rw [list.inList k mem] at other
        cases other
    · exact ⟨later, whole⟩
  rw [List.append_assoc, Option.isSome_iff_exists]
  exact ⟨_, afterList?_eq_some_iff.2 ⟨l, list, rfl⟩⟩

end Lookahead

/-! ## The two places -/

/-- **No list opens** behind an identifier of some tokens that has one of the spans, where `further`
stands behind the tokens. -/
def NoListIn (spans : List Span) (tokens further : List Token) : Prop :=
  ∀ front name behind, tokens = front ++ name :: behind → name.kind = .identifier →
    name.span ∈ spans → afterList? ((behind ++ further).map Token.kind) = none

namespace NoListIn

variable {spans fewer : List Span} {front tokens more further : List Token}

theorem mono (h : NoListIn spans tokens further) (subset : fewer ⊆ spans) :
    NoListIn fewer tokens further :=
  fun front name behind split identifier mem => h front name behind split identifier (subset mem)

theorem behind (h : NoListIn spans (front ++ tokens) further) : NoListIn spans tokens further := by
  intro before name behind split identifier mem
  refine h (front ++ before) name behind ?_ identifier mem
  rw [split, List.append_assoc]

theorem tail {token : Token} (h : NoListIn spans (token :: tokens) further) :
    NoListIn spans tokens further :=
  @behind spans [token] tokens further h

theorem inFront (h : NoListIn spans (tokens ++ more) further) :
    NoListIn spans tokens (more ++ further) := by
  intro front name behind split identifier mem
  rw [← List.append_assoc]
  refine h front name (behind ++ more) ?_ identifier mem
  rw [split, List.append_assoc, List.cons_append]

end NoListIn

/-- **Two ways to go on behind some tokens**: in the first place a closing token and some rest, in
the second a mark and at least as much. No list of type arguments goes past the closing token, and no
name goes on with the mark. -/
structure Parting where
  closing : Token
  rest : List Token
  mark : Token
  more : List Token
  closes : inList closing.kind = false
  marks : mark.kind ≠ .dot
  some : rest ≠ []
  longer : rest.length ≤ more.length

namespace Parting

variable {p : Parting} {e : List Token} {c d : Cursor}

/-- What follows the tokens in the first place. -/
def first (p : Parting) : List Token :=
  p.closing :: p.rest

/-- What follows the tokens in the second place. -/
def second (p : Parting) : List Token :=
  p.mark :: p.more

/-- **No list opens** in the second place behind an identifier of some tokens that has one of the
spans. That has to be known only where a list may go past the mark. -/
def Clear (p : Parting) (spans : List Span) (tokens : List Token) : Prop :=
  inList p.mark.kind = true → NoListIn spans tokens p.second

theorem Clear.mono {spans fewer : List Span} {tokens : List Token} (h : p.Clear spans tokens)
    (subset : fewer ⊆ spans) : p.Clear fewer tokens :=
  fun mayPass => (h mayPass).mono subset

theorem Clear.behind {spans : List Span} {front tokens : List Token}
    (h : p.Clear spans (front ++ tokens)) : p.Clear spans tokens :=
  fun mayPass => (h mayPass).behind

theorem Clear.tail {spans : List Span} {token : Token} {tokens : List Token}
    (h : p.Clear spans (token :: tokens)) : p.Clear spans tokens :=
  fun mayPass => (h mayPass).tail

/-- **Two cursors stand beside each other** in front of the same tokens. -/
structure Beside (p : Parting) (e : List Token) (c d : Cursor) : Prop where
  here : c.left = e ++ p.first
  there : d.left = e ++ p.second

theorem Beside.current_eq (beside : p.Beside e c d) (one : e ≠ []) : d.current = c.current := by
  obtain ⟨first, rest, rfl⟩ := List.exists_cons_of_ne_nil one
  have here : c.current = first := (List.cons.inj beside.here).1
  have there : d.current = first := (List.cons.inj beside.there).1
  rw [here, there]

theorem Beside.kind_eq (beside : p.Beside e c d) (one : e ≠ []) : d.kind = c.kind := by
  rw [Cursor.kind, Cursor.kind, beside.current_eq one]

/-- In front of no tokens one cursor stands on the closing token, and the other on the mark. -/
theorem Beside.kinds (beside : p.Beside [] c d) :
    c.kind = p.closing.kind ∧ d.kind = p.mark.kind := by
  have here : c.current = p.closing := (List.cons.inj beside.here).1
  have there : d.current = p.mark := (List.cons.inj beside.there).1
  rw [Cursor.kind, Cursor.kind, here, there]
  exact ⟨rfl, rfl⟩

/-- As many tokens are left for the second cursor. -/
theorem Beside.length_le (beside : p.Beside e c d) : c.left.length ≤ d.left.length := by
  have longer := p.longer
  rw [beside.here, beside.there, List.length_append, List.length_append]
  simp only [first, second, List.length_cons]
  omega

/-- Something stands behind the closing token. -/
theorem ahead_ne_nil (p : Parting) (ahead : c.left = e ++ p.first) : c.ahead ≠ [] := by
  intro none
  have lengths := congrArg List.length ahead
  have pos := List.length_pos_iff.2 p.some
  simp only [Cursor.left, none, first, List.length_append, List.length_cons, List.length_nil]
    at lengths
  omega

end Parting

namespace Cursor

variable {c c' : Cursor} {front rest : List Token} {token : Token}

theorem ahead_ne_nil_of_left (left : c.left = front ++ c'.left) (some : c'.ahead ≠ []) :
    c.ahead ≠ [] := by
  intro none
  have lengths := congrArg List.length left
  have pos := List.length_pos_iff.2 some
  simp only [Cursor.left, none, List.length_append, List.length_cons, List.length_nil] at lengths
  omega

/-- A step takes the current token, or none where it is the last. -/
theorem exists_front_next (c : Cursor) :
    ∃ front, c.left = front ++ c.next.left ∧ (c.next.ahead ≠ [] → front = [c.current]) := by
  by_cases last : c.ahead = []
  · have stays : c.next = c := by
      unfold next
      rw [last]
    rw [stays]
    exact ⟨[], rfl, fun some => absurd last some⟩
  · exact ⟨[c.current], left_next last, fun _ => rfl⟩

theorem next_of_left (left : c.left = token :: rest) (more : rest ≠ []) :
    c.current = token ∧ c.next.left = rest := by
  obtain ⟨current, ahead⟩ := List.cons.inj left
  have some : c.ahead ≠ [] := ahead ▸ more
  refine ⟨current, ?_⟩
  rw [left_next some] at left
  exact (List.cons.inj left).2

end Cursor

/-- **What is compared of a value**: what is seen of it, and the spans of the names without
arguments in it. -/
structure Aspect (α : Type) where
  Seen : Type
  seen : α → Seen
  bare : α → List Span

namespace Aspect

variable {α : Type}

/-- Nothing is compared. -/
def void : Aspect α :=
  ⟨Unit, fun _ => (), fun _ => []⟩

/-- The whole value is compared, and has no names. -/
def whole : Aspect α :=
  ⟨α, fun value => value, fun _ => []⟩

/-- Every element is compared. -/
def list (A : Aspect α) : Aspect (List α) :=
  ⟨List A.Seen, List.map A.seen, List.flatMap A.bare⟩

end Aspect

/-- No token of the kind that asks for another behind it is the last one. -/
def Shut (tokens : List Token) : Prop :=
  ∀ last ∈ tokens.getLast?, last.kind ≠ .openBracket

theorem Shut.nil : Shut [] := nofun

theorem Shut.append {front behind : List Token} (one : Shut front) (two : Shut behind) :
    Shut (front ++ behind) := by
  intro last mem
  cases behind with
  | nil =>
    rw [List.append_nil] at mem
    exact one last mem
  | cons token rest =>
    rw [List.getLast?_append_of_ne_nil _ (List.cons_ne_nil _ _)] at mem
    exact two last mem

namespace Parse

variable {α β : Type}

theorem kind_of_run_expect {c : Cursor} {k : Kind} {token : Token} {c' : Cursor}
    (run : expect k c = .ok token c') : c.kind = k := by
  by_contra different
  change (if c.kind = k then advance else unexpected k.name) c = _ at run
  rw [if_neg different] at run
  exact absurd run throw_ne_ok

/-- **What is known of a run** that took the tokens `front`: what its value has, how many tokens it
took at least, and that the run of another action over the same tokens gives a value alike. -/
structure Echoed (p : Parting) (held : List Span) (least slack : Nat) (A : Aspect α)
    (other : Parse α) (c : Cursor) (value : α) (c' : Cursor) (front : List Token) : Prop where
  held : held ⊆ A.bare value
  left : c.left = front ++ c'.left
  least : c'.ahead ≠ [] → least ≤ front.length
  shut : c'.ahead ≠ [] → Shut front
  echo : ∀ ⦃e d⦄, c'.left = e ++ p.first → slack ≤ e.length → Shut e →
    p.Clear (A.bare value) (front ++ e) → d.left = front ++ e ++ p.second →
    ∃ otherValue d', other d = .ok otherValue d' ∧ d'.left = e ++ p.second ∧
      A.seen otherValue = A.seen value

/-- **An action is echoed by another**: whenever it ends in front of the parting, with at least
`slack` tokens in between, the other does the same in the second place, with a value alike. Its value
has the names `held`, and it takes at least `least` tokens. -/
def Echoes (p : Parting) (held : List Span) (least slack : Nat) (A : Aspect α)
    (action other : Parse α) (c : Cursor) : Prop :=
  ∀ ⦃value c'⦄, action c = .ok value c' →
    ∃ front, Echoed p held least slack A other c value c' front

namespace Echoes

variable {p : Parting} {held less : List Span} {least slack fewer room total : Nat} {A : Aspect α}
  {B : Aspect β} {action other : Parse α} {c : Cursor}

theorem pure {value otherValue : α} (holds : held ⊆ A.bare value)
    (alike : A.seen otherValue = A.seen value) :
    Echoes p held 0 slack A (Pure.pure value) (Pure.pure otherValue) c := by
  intro given c' run
  obtain ⟨rfl, rfl⟩ := pure_eq_ok.1 run
  refine ⟨[], holds, rfl, fun _ => Nat.le_refl _, fun _ => .nil, ?_⟩
  intro e d _ _ _ _ there
  exact ⟨otherValue, d, rfl, there, alike⟩

theorem halt {halt : Halt} : Echoes p held least slack A (throw halt) other c := by
  intro value c' run
  exact absurd run throw_ne_ok

/-- An echo says less of fewer tokens, less room and fewer names. -/
theorem weaken (h : Echoes p held least slack A action other c) (few : fewer ≤ least)
    (roomy : slack ≤ room) (subset : less ⊆ held) :
    Echoes p less fewer room A action other c := by
  intro value c' run
  obtain ⟨front, echoed⟩ := h run
  refine ⟨front, List.Subset.trans subset echoed.held, echoed.left,
    fun some => Nat.le_trans few (echoed.least some), echoed.shut, ?_⟩
  intro e d ahead enough
  exact echoed.echo ahead (Nat.le_trans roomy enough)

/-- An action that may take nothing where it has to take something. -/
theorem few (h : Echoes p held least slack A action other c) :
    Echoes p held 0 slack A action other c :=
  h.weaken (Nat.zero_le _) (Nat.le_refl _) (List.Subset.refl _)

theorem one (h : Echoes p held (least + 1) slack A action other c) :
    Echoes p held 1 slack A action other c :=
  h.weaken (Nat.le_add_left ..) (Nat.le_refl _) (List.Subset.refl _)

/-- **An action behind another.** The tokens that the second takes are room for the first. -/
theorem bind {next after : α → Parse β}
    (here : Echoes p less least room A action other c)
    (behind : ∀ value otherValue c', A.seen otherValue = A.seen value → less ⊆ A.bare value →
      Echoes p (held ++ A.bare value) (total - least) slack B (next value) (after otherValue) c')
    (enough : room ≤ total - least + slack) :
    Echoes p held total slack B (action >>= next) (other >>= after) c := by
  intro given c' run
  obtain ⟨value, between, firstRun, restRun⟩ := bind_eq_ok.1 run
  obtain ⟨front, one⟩ := here firstRun
  obtain ⟨later, two⟩ := behind value value between rfl one.held restRun
  have someBetween : c'.ahead ≠ [] → between.ahead ≠ [] := Cursor.ahead_ne_nil_of_left two.left
  refine ⟨front ++ later, ?_, ?_, ?_, ?_, ?_⟩
  · exact List.Subset.trans (List.subset_append_left ..) two.held
  · rw [one.left, two.left, List.append_assoc]
  · intro some
    have taken := one.least (someBetween some)
    have takenToo := two.least some
    rw [List.length_append]
    omega
  · intro some
    exact (one.shut (someBetween some)).append (two.shut some)
  · intro e d ahead more shut clear there
    have some : c'.ahead ≠ [] := p.ahead_ne_nil ahead
    have subset : A.bare value ⊆ B.bare given :=
      List.Subset.trans (List.subset_append_right ..) two.held
    rw [List.append_assoc] at clear
    obtain ⟨otherValue, d₁, otherRun, thereThen, alike⟩ : ∃ otherValue d₁,
        other d = .ok otherValue d₁ ∧ d₁.left = later ++ e ++ p.second ∧
        A.seen otherValue = A.seen value := by
      refine @one.echo (later ++ e) d ?_ ?_ ((two.shut some).append shut) (clear.mono subset) ?_
      · rw [two.left, ahead, List.append_assoc]
      · have takenToo := two.least some
        rw [List.length_append]
        omega
      · rw [there, List.append_assoc front]
    obtain ⟨later', three⟩ := behind value otherValue between alike one.held restRun
    obtain rfl : later' = later := List.append_cancel_right (three.left.symm.trans two.left)
    obtain ⟨final, d', finalRun, thereLast, alikeToo⟩ :=
      three.echo ahead more shut clear.behind thereThen
    exact ⟨final, d', bind_eq_ok.2 ⟨otherValue, d₁, otherRun, finalRun⟩, thereLast, alikeToo⟩

/-- An action behind one whose value has no names and is the same in both places. -/
theorem skip {next after : α → Parse β} (here : Echoes p [] least room .whole action other c)
    (behind : ∀ value c',
      Echoes p held (total - least) slack B (next value) (after value) c')
    (enough : room ≤ total - least + slack) :
    Echoes p held total slack B (action >>= next) (other >>= after) c := by
  refine bind here (fun value otherValue c' alike _ => ?_) enough
  obtain rfl : otherValue = value := alike
  exact (behind otherValue c').weaken (Nat.le_refl _) (Nat.le_refl _) (List.append_subset.2
    ⟨List.Subset.refl _, List.nil_subset _⟩)

/-- An action behind one whose value is not compared. -/
theorem still {next after : α → Parse β} (here : Echoes p [] 0 room .void action other c)
    (behind : ∀ value otherValue c',
      Echoes p held total slack B (next value) (after otherValue) c')
    (enough : room ≤ total + slack) :
    Echoes p held total slack B (action >>= next) (other >>= after) c := by
  refine bind here (fun value otherValue c' _ _ => ?_) enough
  exact (behind value otherValue c').weaken (Nat.le_refl _) (Nat.le_refl _) (List.append_subset.2
    ⟨List.Subset.refl _, List.nil_subset _⟩)

/-- An action that looks at the cursor is echoed by one that looks at any other beside it. -/
theorem lookBeside {next after : Cursor → Parse α}
    (same : Echoes p held least slack A (next c) (after c) c)
    (others : ∀ e d, p.Beside e c d → least + slack ≤ e.length → Shut e →
      Echoes p held least slack A (next c) (after d) c) :
    Echoes p held least slack A (get >>= next) (get >>= after) c := by
  intro value c' run
  obtain ⟨front, one⟩ := same run
  refine ⟨front, one.held, one.left, one.least, one.shut, ?_⟩
  intro e d ahead more shut clear there
  have some : c'.ahead ≠ [] := p.ahead_ne_nil ahead
  have beside : p.Beside (front ++ e) c d := ⟨by rw [one.left, ahead, List.append_assoc], there⟩
  have long : least + slack ≤ (front ++ e).length := by
    have taken := one.least some
    rw [List.length_append]
    omega
  obtain ⟨front', two⟩ := others _ d beside long ((one.shut some).append shut) run
  obtain rfl : front' = front := List.append_cancel_right (two.left.symm.trans one.left)
  exact two.echo ahead more shut clear there

/-- **An action that looks at the cursor**, where what it sees is the same in the second place. -/
theorem look {next after : Cursor → Parse α}
    (same : Echoes p held least slack A (next c) (after c) c)
    (agrees : ∀ e d, p.Beside e c d → least + slack ≤ e.length → Shut e → after d = after c) :
    Echoes p held least slack A (get >>= next) (get >>= after) c := by
  refine lookBeside same fun e d beside long shut => ?_
  rw [agrees e d beside long shut]
  exact same

/-- An action that depends on the number of tokens left, of which there may be more in the second
place. -/
theorem byLength {each otherEach : Nat → Parse α}
    (behind : ∀ n m, n ≤ m → Echoes p held least slack A (each n) (otherEach m) c) :
    Echoes p held least slack A (get >>= fun c => each c.left.length)
      (get >>= fun c => otherEach c.left.length) c :=
  lookBeside (behind _ _ (Nat.le_refl _)) fun _ _ beside _ _ => behind _ _ beside.length_le

/-- An action that looks at the kind of the current token, where the kind in the second place leads to
the same. -/
theorem byKind {next after : Kind → Parse α}
    (behind : Echoes p held least slack A (next c.kind) (after c.kind) c)
    (agrees : ∀ e d, p.Beside e c d → least + slack ≤ e.length → after d.kind = after c.kind) :
    Echoes p held least slack A (kind >>= next) (kind >>= after) c :=
  @look _ p held least slack A c (fun c => next c.kind) (fun c => after c.kind) behind
    fun e d beside long _ => agrees e d beside long

/-- An action that looks at the kind of a token which is the same in both places. -/
theorem onKind {next after : Kind → Parse α}
    (behind : Echoes p held least slack A (next c.kind) (after c.kind) c)
    (some : 1 ≤ least + slack) :
    Echoes p held least slack A (kind >>= next) (kind >>= after) c := by
  refine byKind behind fun e d beside long => ?_
  rw [beside.kind_eq (List.length_pos_iff.1 (Nat.lt_of_lt_of_le some long))]

theorem ite {q : Prop} [Decidable q] {further otherFurther : Parse α}
    (yes : q → Echoes p held least slack A action other c)
    (no : ¬ q → Echoes p held least slack A further otherFurther c) :
    Echoes p held least slack A (if q then action else further)
      (if q then other else otherFurther) c := by
  by_cases holds : q
  · rw [if_pos holds, if_pos holds]
    exact yes holds
  · rw [if_neg holds, if_neg holds]
    exact no holds

/-- **An action behind a token that is taken**, whatever it is. -/
theorem advance {next after : Token → Parse α}
    (behind : Echoes p held least slack A (next c.current) (after c.current) c.next)
    (shut : c.kind ≠ .openBracket ∨ 1 ≤ least) :
    Echoes p held (least + 1) slack A (Parse.advance >>= next) (Parse.advance >>= after) c := by
  intro value c' run
  obtain ⟨front, echoed⟩ := behind run
  obtain ⟨one, left, single⟩ := c.exists_front_next
  have taken (some : c'.ahead ≠ []) : one = [c.current] :=
    single (Cursor.ahead_ne_nil_of_left echoed.left some)
  refine ⟨one ++ front, echoed.held, ?_, ?_, ?_, ?_⟩
  · rw [left, echoed.left, List.append_assoc]
  · intro some
    rw [taken some]
    exact Nat.succ_le_succ (echoed.least some)
  · intro some token mem
    rw [taken some] at mem
    cases front with
    | nil =>
      cases mem
      exact shut.resolve_right (Nat.not_le.2 (Nat.lt_succ_of_le (echoed.least some)))
    | cons first rest => exact echoed.shut some token mem
  · intro e d ahead more isShut clear there
    rw [taken (p.ahead_ne_nil ahead)] at clear there
    obtain ⟨current, left⟩ := Cursor.next_of_left there (by simp [Parting.second])
    obtain ⟨otherValue, d', otherRun, thereThen, alike⟩ :=
      echoed.echo ahead more isShut clear.tail left
    refine ⟨otherValue, d', ?_, thereThen, alike⟩
    change after d.current d.next = _
    rw [current]
    exact otherRun

/-- **An action behind a token of a kind.** -/
theorem expect {k : Kind} {next after : Token → Parse α}
    (behind : c.kind = k → Echoes p held least slack A (next c.current) (after c.current) c.next)
    (shut : k ≠ .openBracket ∨ 1 ≤ least) :
    Echoes p held (least + 1) slack A (Parse.expect k >>= next) (Parse.expect k >>= after) c := by
  intro value c' run
  obtain ⟨token, between, taken, -⟩ := bind_eq_ok.1 run
  have here := kind_of_run_expect taken
  have asAdvance {next : Token → Parse α} {d : Cursor} (isKind : d.kind = k) :
      (Parse.expect k >>= next) d = (Parse.advance >>= next) d := by
    change EStateM.bind (Parse.expect k) next d = EStateM.bind Parse.advance next d
    rw [EStateM.bind, run_expect isKind]
    rfl
  rw [asAdvance here] at run
  obtain ⟨front, echoed⟩ := advance (behind here) (here ▸ shut) run
  refine ⟨front, echoed.held, echoed.left, echoed.least, echoed.shut, ?_⟩
  intro e d ahead more isShut clear there
  have beside : p.Beside (front ++ e) c d := ⟨by rw [echoed.left, ahead, List.append_assoc], there⟩
  have one : front ++ e ≠ [] := by
    have taken := echoed.least (p.ahead_ne_nil ahead)
    intro none
    rw [(List.append_eq_nil_iff.1 none).1] at taken
    exact Nat.not_succ_le_zero _ taken
  rw [asAdvance (beside.kind_eq one ▸ here)]
  exact echoed.echo ahead more isShut clear there

end Echoes

variable {p : Parting} {held : List Span} {least slack room : Nat} {A : Aspect α} {c : Cursor}

/-! ## Single tokens -/

theorem echoes_here : Echoes p [] 0 0 .void here here c := by
  intro value c' run
  cases run
  refine ⟨[], List.nil_subset _, rfl, fun _ => Nat.le_refl _, fun _ => .nil, ?_⟩
  intro e d _ _ _ _ there
  exact ⟨_, d, rfl, there, rfl⟩

theorem echoes_spanFrom (start other : Position) :
    Echoes p [] 0 0 .void (spanFrom start) (spanFrom other) c := by
  intro value c' run
  cases run
  refine ⟨[], List.nil_subset _, rfl, fun _ => Nat.le_refl _, fun _ => .nil, ?_⟩
  intro e d _ _ _ _ there
  exact ⟨_, d, rfl, there, rfl⟩

theorem echoes_freshId : Echoes p [] 0 0 .void freshId freshId c := by
  intro value c' run
  cases run
  refine ⟨[], List.nil_subset _, rfl, fun _ => Nat.le_refl _, fun _ => .nil, ?_⟩
  intro e d _ _ _ _ there
  exact ⟨_, { d with nextId := d.nextId + 1 }, rfl, there, rfl⟩

theorem echoes_fail {fault : Fault} {position : Position} {other : Parse α} :
    Echoes p held least slack A (fail fault position) other c :=
  .halt

theorem echoes_unexpected {expected : String} {other : Parse α} :
    Echoes p held least slack A (unexpected expected) other c := by
  intro value c' run
  exact absurd run throw_ne_ok

theorem echoes_consume {k : Kind} (shut : k ≠ .openBracket) :
    Echoes p [] 0 1 .whole (consume k) (consume k) c := by
  refine .look (.ite (fun here => ?_) fun _ => .pure (List.nil_subset _) rfl) fun e d beside long _ => ?_
  · have taken : Echoes p [] 1 1 .whole (advance >>= fun _ => pure true)
        (advance >>= fun _ => pure true) c :=
      .advance (.pure (List.nil_subset _) rfl) (.inl (here ▸ shut))
    exact taken.few
  · rw [beside.kind_eq (List.length_pos_iff.1 long)]

/-- A separator is taken alike where more tokens follow it. -/
theorem echoes_separator (closing : Kind) :
    Echoes p [] 0 1 .void (separator closing) (separator closing) c := by
  refine .look (.ite (fun here => ?_) fun _ => .ite (fun _ => .pure (List.nil_subset _) rfl)
    fun _ => echoes_unexpected) fun e d beside long _ => ?_
  · have taken : Echoes p [] 1 1 .void (advance >>= fun _ => pure ())
        (advance >>= fun _ => pure ()) c :=
      .advance (.pure (List.nil_subset _) rfl) (.inl (by rw [here]; nofun))
    exact taken.few
  · rw [beside.kind_eq (List.length_pos_iff.1 long)]

/-! ## Repetition -/

section Repetition

variable {holds : Cursor → Bool} {item other : Parse α} {step grow : α → Parse α}

/-- **A repetition is echoed** where its condition and its action are, and the bound is no lower. -/
theorem echoes_repeatUpTo
    (agrees : ∀ e c d, p.Beside e c d → slack ≤ e.length → Shut e → holds d = holds c)
    (each : ∀ c, Echoes p [] 0 slack A item other c) {n m : Nat} (le : n ≤ m) (c : Cursor) :
    Echoes p [] 0 slack A.list (repeatUpTo holds item n) (repeatUpTo holds other m) c := by
  induction n generalizing m c with
  | zero =>
    cases m with
    | zero | succ m =>
      refine .look (.ite (fun _ => .halt) fun _ => .pure (List.nil_subset _) rfl) ?_
      intro e d beside long shut
      rw [agrees e c d beside (Nat.zero_add slack ▸ long) shut]
  | succ n ih =>
    cases m with
    | zero => cases le
    | succ m =>
      refine .look (.ite (fun _ => ?_) fun _ => .pure (List.nil_subset _) rfl) ?_
      · refine .bind (each c) (fun first otherFirst c' alike _ => ?_) (Nat.le_add_left ..)
        refine .bind (ih (Nat.le_of_succ_le_succ le) c') (fun rest otherRest c'' alikeRest _ => ?_)
          (Nat.le_add_left ..)
        refine .pure (List.Subset.refl _) ?_
        change A.seen otherFirst :: A.list.seen otherRest = A.seen first :: A.list.seen rest
        rw [alike, alikeRest]
      · intro e d beside long shut
        rw [agrees e c d beside (Nat.zero_add slack ▸ long) shut]

theorem echoes_repeatWhile
    (agrees : ∀ e c d, p.Beside e c d → slack ≤ e.length → Shut e → holds d = holds c)
    (each : ∀ c, Echoes p [] 0 slack A item other c) (c : Cursor) :
    Echoes p [] 0 slack A.list (repeatWhile holds item) (repeatWhile holds other) c :=
  .byLength fun _ _ le => echoes_repeatUpTo agrees each le c

/-- **A list is echoed** when the tokens go on behind it. -/
theorem echoes_separated {closing : Kind} (each : ∀ c, Echoes p [] 0 1 A item other c)
    (c : Cursor) : Echoes p [] 0 1 A.list (separated closing item) (separated closing other) c := by
  refine echoes_repeatWhile (fun e c d beside long _ => ?_) (fun c => ?_) c
  · rw [beside.kind_eq (List.length_pos_iff.1 long)]
  · refine .bind (each c) (fun value otherValue c' alike _ => ?_) (Nat.le_refl _)
    exact .still (echoes_separator closing) (fun _ _ _ => .pure (List.Subset.refl _) alike)
      (Nat.le_refl _)

/-- **A value that grows is echoed** by one that is alike at first. -/
theorem echoes_growUpTo
    (agrees : ∀ e c d, p.Beside e c d → slack ≤ e.length → Shut e → holds d = holds c)
    (each : ∀ value otherValue c, holds c = true → A.seen otherValue = A.seen value →
      Echoes p (A.bare value) 0 slack A (step value) (grow otherValue) c)
    {n m : Nat} (le : n ≤ m) {value otherValue : α} (alike : A.seen otherValue = A.seen value)
    (c : Cursor) :
    Echoes p (A.bare value) 0 slack A (growUpTo holds step n value)
      (growUpTo holds grow m otherValue) c := by
  induction n generalizing m value otherValue c with
  | zero =>
    cases m with
    | zero | succ m =>
      refine .look (.ite (fun _ => .halt) fun _ => .pure (List.Subset.refl _) alike) ?_
      intro e d beside long shut
      rw [agrees e c d beside (Nat.zero_add slack ▸ long) shut]
  | succ n ih =>
    cases m with
    | zero => cases le
    | succ m =>
      refine .look (.ite (fun goesOn => ?_) fun _ => .pure (List.Subset.refl _) alike) ?_
      · refine .bind (each value otherValue c goesOn alike)
          (fun longer otherLonger c' alike keeps => ?_) (Nat.le_add_left ..)
        refine (ih (Nat.le_of_succ_le_succ le) alike c').weaken (Nat.le_refl _) (Nat.le_refl _) ?_
        exact List.append_subset.2 ⟨keeps, List.Subset.refl _⟩
      · intro e d beside long shut
        rw [agrees e c d beside (Nat.zero_add slack ▸ long) shut]

theorem echoes_growWhile
    (agrees : ∀ e c d, p.Beside e c d → slack ≤ e.length → Shut e → holds d = holds c)
    (each : ∀ value otherValue c, holds c = true → A.seen otherValue = A.seen value →
      Echoes p (A.bare value) 0 slack A (step value) (grow otherValue) c)
    {value otherValue : α} (alike : A.seen otherValue = A.seen value) (c : Cursor) :
    Echoes p (A.bare value) 0 slack A (growWhile holds step value) (growWhile holds grow otherValue)
      c :=
  .byLength fun _ _ le => echoes_growUpTo agrees each le alike c

end Repetition

end Parse

end FrontEnd

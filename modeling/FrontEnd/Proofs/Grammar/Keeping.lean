import FrontEnd.Proofs.Grammar.Consuming
import FrontEnd.Proofs.Program.Data
import FrontEnd.Proofs.Token.Scanned
import Mathlib.Tactic.Abel

/-!
# Parsing keeps the data of its tokens

An action that ends well gives a value with all data of the tokens that it has taken, besides those
that it was given. It may repeat a word, and a sign adds the number one; data between quotes are
repeated only by a compound assignment, whose target stands in its value a second time.

So the data before an action and those behind it are compared (`Kept`), and actions one behind the
other are compared step by step: what an action has kept is what the next is given (`Keeps.seq`).

This module has the rules and the actions for names.
-/

namespace FrontEnd

open Token

/-! ## Data that are kept -/

/-- **Data are kept**: all of them are there afterwards, those between quotes are as many as before
unless something was doubled, and no word is new. -/
structure Kept (doubled : Prop) (before after : Multiset Datum) : Prop where
  all : before ≤ after
  quotes : ¬ doubled → quotations after = quotations before
  words : ∀ text, .word text ∈ after → .word text ∈ before

namespace Kept

variable {doubled wider : Prop} {before between after more later : Multiset Datum}

theorem refl (doubled : Prop) (data : Multiset Datum) : Kept doubled data data :=
  ⟨le_refl _, fun _ => rfl, fun _ mem => mem⟩

theorem trans (h : Kept doubled before between) (g : Kept doubled between after) :
    Kept doubled before after where
  all := le_trans h.all g.all
  quotes single := (g.quotes single).trans (h.quotes single)
  words text mem := h.words text (g.words text mem)

theorem mono (h : Kept doubled before after) (implies : doubled → wider) :
    Kept wider before after :=
  ⟨h.all, fun single => h.quotes fun isDoubled => single (implies isDoubled), h.words⟩

/-- Data that stand beside others are kept with them. -/
theorem add (h : Kept doubled before after) (data : Multiset Datum) :
    Kept doubled (data + before) (data + after) where
  all := add_le_add (le_refl data) h.all
  quotes single := by rw [quotations_add, quotations_add, h.quotes single]
  words text mem := by
    rcases Multiset.mem_add.1 mem with mem | mem
    · exact Multiset.mem_add.2 (.inl mem)
    · exact Multiset.mem_add.2 (.inr (h.words text mem))

/-- A word may be repeated. -/
theorem word_twice (doubled : Prop) (text : String) :
    Kept doubled {.word text} ({.word text} + {.word text}) where
  all := le_add_of_nonneg_left (Multiset.zero_le _)
  quotes _ := rfl
  words _ mem := by simpa using mem

/-- A number may be added. -/
theorem add_int (doubled : Prop) (data : Multiset Datum) (value : Int) :
    Kept doubled data (data + {.int value}) where
  all := le_add_of_nonneg_right (Multiset.zero_le _)
  quotes _ := by
    rw [quotations_add]
    exact add_zero _
  words _ mem := by simpa using mem

/-- Where something is doubled, it may be what it likes. -/
theorem twice (data : Multiset Datum) : Kept True data (data + data) where
  all := le_add_of_nonneg_left (Multiset.zero_le _)
  quotes single := absurd trivial single
  words _ mem := by simpa using mem

end Kept

/-! ## The judgement -/

/-- The kinds of the tokens of compound assignments. -/
def Token.Kind.isCompound : Kind → Bool
  | .plusEquals | .minusEquals | .starEquals | .slashEquals => true
  | _ => false

/-- A compound assignment is among some tokens. -/
def HasCompound (tokens : List Token) : Prop :=
  ∃ token ∈ tokens, token.kind.isCompound = true

theorem HasCompound.append_left {front : List Token} (h : HasCompound front) (back : List Token) :
    HasCompound (front ++ back) := by
  obtain ⟨token, mem, compound⟩ := h
  exact ⟨token, List.mem_append_left _ mem, compound⟩

theorem HasCompound.append_right {back : List Token} (h : HasCompound back) (front : List Token) :
    HasCompound (front ++ back) := by
  obtain ⟨token, mem, compound⟩ := h
  exact ⟨token, List.mem_append_right _ mem, compound⟩

/-- **What is kept of some tokens is kept of more** behind them. -/
theorem Kept.append {used mid last : Multiset Datum} {taken more : List Token}
    (kept : Kept (HasCompound taken) (used + Token.data taken) mid)
    (further : Kept (HasCompound more) (mid + Token.data more) last) :
    Kept (HasCompound (taken ++ more)) (used + Token.data (taken ++ more)) last := by
  have front : Kept (HasCompound (taken ++ more)) (Token.data more + (used + Token.data taken))
      (Token.data more + mid) := (kept.mono (·.append_left more)).add _
  have back := further.mono (·.append_right taken)
  rw [Token.data_append, ← add_assoc, add_comm]
  rw [add_comm] at back
  exact front.trans back

namespace Parse

/-- **An action keeps data**: from scanned tokens it gives a value whose data are those that it was
given and those of the tokens that it takes. -/
def Keeps {α : Type} (used : Multiset Datum) (action : Parse α) (data : α → Multiset Datum)
    (c : Cursor) : Prop :=
  (∀ token ∈ c.left, token.Scanned) → Consumes action (fun taken value =>
    Kept (HasCompound taken) (used + Token.data taken) (data value)) c

/-- An action takes no token with a datum. -/
abbrev Silent {α : Type} (action : Parse α) (c : Cursor) : Prop :=
  Keeps 0 action (fun _ => 0) c

namespace Keeps

variable {α β : Type} {action other : Parse α} {used wider : Multiset Datum}
  {data mid : α → Multiset Datum} {final : β → Multiset Datum} {c : Cursor}

theorem pure_of_kept {value : α} (h : Kept False used (data value)) :
    Keeps used (Pure.pure value) data c := by
  intro _
  refine .pure ?_
  rw [Token.data_nil, add_zero]
  exact h.mono False.elim

theorem pure {value : α} (same : data value = used) : Keeps used (Pure.pure value) data c :=
  pure_of_kept (same ▸ .refl _ _)

theorem halt {halt : Halt} : Keeps used (throw halt) data c :=
  fun _ => .halt

theorem look {next : Cursor → Parse β} (behind : Keeps used (next c) final c) :
    Keeps used (get >>= next) final c :=
  fun scanned => .look (behind scanned)

theorem onKind {next : Kind → Parse β} (behind : Keeps used (next c.kind) final c) :
    Keeps used (Parse.kind >>= next) final c :=
  fun scanned => .onKind (behind scanned)

theorem ite {p : Prop} [Decidable p] (yes : p → Keeps used action data c)
    (no : ¬ p → Keeps used other data c) : Keeps used (if p then action else other) data c := by
  split
  next holds => exact yes holds
  next fails => exact no fails

/-- The tokens that are left behind an action are scanned too. -/
theorem scanned_of_left {taken : List Token} {c c' : Cursor}
    (scanned : ∀ token ∈ c.left, token.Scanned) (left : c.left = taken ++ c'.left) :
    ∀ token ∈ c'.left, token.Scanned := by
  intro token mem
  refine scanned token ?_
  rw [left]
  exact List.mem_append_right _ mem

/-- **Actions one behind the other**: the second is given what the first has kept. -/
theorem seq {next : α → Parse β} (here : Keeps used action mid c)
    (behind : ∀ value c', Keeps (mid value) (next value) final c') :
    Keeps used (action >>= next) final c := by
  intro scanned
  refine .bind (here scanned) fun value c' taken left kept => ?_
  exact (behind value c' (scanned_of_left scanned left)).weaken fun more result => kept.append

/-- What an action is given besides stands beside what it keeps. -/
theorem frame (h : Keeps 0 action data c) (used : Multiset Datum) :
    Keeps used action (fun value => used + data value) c := by
  intro scanned
  refine (h scanned).weaken fun taken value kept => ?_
  rw [zero_add] at kept
  exact kept.add used

/-- An action behind another, with what that one keeps. -/
theorem bind {next : α → Parse β} (here : Keeps 0 action data c)
    (behind : ∀ value c', Keeps (used + data value) (next value) final c') :
    Keeps used (action >>= next) final c :=
  seq (here.frame used) behind

/-- An action behind a silent one. -/
theorem skip {next : α → Parse β} (here : Silent action c)
    (behind : ∀ value c', Keeps used (next value) final c') :
    Keeps used (action >>= next) final c :=
  bind here fun value c' => (add_zero used).symm ▸ behind value c'

theorem map {f : α → β} (h : Keeps used action mid c)
    (same : ∀ value, final (f value) = mid value) : Keeps used (f <$> action) final c := by
  rw [map_eq_pure_bind]
  exact seq h fun value _ => .pure (same value)

/-- **An action behind a token that is taken**, with the datum of the token. -/
theorem take {next : Token → Parse β} (notEnd : c.kind ≠ .eof)
    (behind : c.current.Scanned → c.next.kind = c.peek 1 →
      Keeps (used + Token.data [c.current]) (next c.current) final c.next) :
    Keeps used (Parse.advance >>= next) final c := by
  intro scanned
  refine .advance notEnd fun left follows => ?_
  have here := scanned c.current List.mem_cons_self
  have split : c.left = [c.current] ++ c.next.left := left
  have later := scanned_of_left scanned split
  refine (behind here follows later).weaken fun taken value kept => ?_
  rw [Token.data_cons, ← add_assoc]
  exact kept.mono (·.append_right [c.current])

/-- An action behind a mark. -/
theorem mark {next : Token → Parse β} (isMark : c.kind.isMark = true)
    (behind : c.next.kind = c.peek 1 → Keeps used (next c.current) final c.next) :
    Keeps used (Parse.advance >>= next) final c := by
  have notEnd : c.kind ≠ .eof := by
    intro isEnd
    rw [isEnd] at isMark
    cases isMark
  refine take notEnd fun _ follows => ?_
  rw [Token.data_singleton, Token.datum?_of_isMark isMark]
  exact (add_zero used).symm ▸ behind follows

/-- **An action behind the token of a compound assignment**: what it is given may be doubled. -/
theorem compound {next : Token → Parse β} (isCompound : c.kind.isCompound = true)
    (doubled : Kept True used wider) (behind : Keeps wider (next c.current) final c.next) :
    Keeps used (Parse.advance >>= next) final c := by
  have isMark : c.kind.isMark = true := by
    cases here : c.kind <;> simp_all [Kind.isCompound, Kind.isMark]
  have notEnd : c.kind ≠ .eof := by
    intro isEnd
    rw [isEnd] at isMark
    cases isMark
  intro scanned
  refine .advance notEnd fun left _ => ?_
  have split : c.left = [c.current] ++ c.next.left := left
  have later := scanned_of_left scanned split
  refine (behind later).weaken fun taken value kept => ?_
  have has : HasCompound (c.current :: taken) := ⟨c.current, List.mem_cons_self, isCompound⟩
  rw [Token.data_cons, Token.data_singleton, Token.datum?_of_isMark isMark]
  have front := (doubled.mono fun _ => has).add (Token.data taken)
  have back := kept.mono fun _ => has
  rw [add_comm] at back
  have whole := front.trans back
  rwa [add_comm (Token.data taken) used, ← zero_add (Token.data taken)] at whole

end Keeps

variable {α : Type} {data : α → Multiset Datum} {c : Cursor}

/-! ## Single tokens -/

theorem silent_here : Silent here c :=
  .look (.pure rfl)

theorem silent_spanFrom (start : Position) : Silent (spanFrom start) c :=
  .look (.pure rfl)

theorem silent_freshId : Silent freshId c := by
  intro _
  refine consumes_freshId.weaken fun taken id none => ?_
  subst none
  exact .refl _ _

theorem keeps_unexpected {used : Multiset Datum} (expected : String) :
    Keeps used (unexpected expected) data c :=
  .look .halt

theorem silent_expect {k : Kind} (isMark : k.isMark = true) : Silent (expect k) c := by
  refine .look (.ite (fun here => ?_) fun _ => keeps_unexpected _)
  rw [← bind_pure advance]
  exact .mark (here ▸ isMark) fun _ => .pure rfl

theorem silent_consume {k : Kind} (isMark : k.isMark = true) : Silent (consume k) c :=
  .look (.ite (fun here => .mark (here ▸ isMark) fun _ => .pure rfl) fun _ => .pure rfl)

theorem silent_separator (closing : Kind) : Silent (separator closing) c := by
  refine .look (.ite (fun here => ?_) fun _ => .ite (fun _ => .pure rfl) fun _ => .halt)
  exact .mark (here ▸ rfl) fun _ => .pure rfl

theorem silent_arrayMark : Silent arrayMark c := by
  refine .skip (silent_consume rfl) fun opens _ => .ite (fun _ => ?_) fun _ => .pure rfl
  exact .skip (silent_expect rfl) fun _ _ => .pure rfl

/-- **An action behind an identifier**, with its text. -/
theorem Keeps.word {β : Type} {used : Multiset Datum} {next : Token → Parse β}
    {final : β → Multiset Datum} (behind : ∀ token c', token.Scanned → token.kind = .identifier →
      Keeps (used + {.word token.text}) (next token) final c') :
    Keeps used (expect .identifier >>= next) final c := by
  intro scanned
  refine .bind (consumes_expect nofun) fun token c' taken left ⟨isToken, isWord⟩ => ?_
  subst isToken
  have here : token.Scanned := scanned token (by rw [left]; exact List.mem_cons_self)
  have later := behind token c' here isWord (scanned_of_left scanned left)
  refine later.weaken fun more value kept => ?_
  have datum : Token.data [token] = {.word token.text} := by
    rw [Token.data_singleton, Token.datum?, isWord]
    rfl
  rw [Token.data_append, datum, ← add_assoc]
  exact kept.mono (·.append_right [token])

/-! ## Repetition -/

section Repetition

variable {holds : Cursor → Bool} {item : Parse α}

/-- What is kept of tokens in a row is kept of all of them. -/
theorem kept_of_inRow {taken : List Token} {values : List α}
    (row : InRow (fun taken value => Kept (HasCompound taken) (0 + Token.data taken) (data value))
      taken values) :
    Kept (HasCompound taken) (0 + Token.data taken) (total data values) := by
  induction row with
  | nil => exact .refl _ _
  | cons fit _ ih =>
    rw [zero_add] at ih
    rw [total_cons]
    exact fit.append (ih.add _)

/-- **A repetition keeps data**, where the action does that is repeated. -/
theorem keeps_repeatWhile (each : ∀ c : Cursor, holds c = true → Keeps 0 item data c) :
    Keeps 0 (repeatWhile holds item) (total data) c := by
  intro scanned
  have inRow := consumes_repeatWhile Keeps.scanned_of_left scanned fun c scanned goesOn =>
    each c goesOn scanned
  exact inRow.weaken fun _ _ => kept_of_inRow

theorem keeps_repeatUntil {closing : Kind} (each : ∀ c, Keeps 0 item data c) :
    Keeps 0 (repeatUntil closing item) (total data) c :=
  keeps_repeatWhile fun c _ => each c

theorem keeps_separated {closing : Kind} (each : ∀ c, Keeps 0 item data c) :
    Keeps 0 (separated closing item) (total data) c := by
  refine keeps_repeatUntil fun c => .bind (each c) fun value _ => ?_
  exact .skip (silent_separator closing) fun _ _ => .pure (zero_add _).symm

/-- **A value that grows keeps data**, where each step keeps those that the value has. -/
theorem keeps_growWhile {step : α → Parse α}
    (each : ∀ value c, holds c = true → Keeps (data value) (step value) data c) (value : α) :
    Keeps (data value) (growWhile holds step value) data c := by
  intro scanned
  have still : Kept (HasCompound []) (data value + Token.data []) (data value) := by
    rw [Token.data_nil, add_zero]
    exact .refl _ _
  refine consumes_growWhile Keeps.scanned_of_left
    (fun taken next => Kept (HasCompound taken) (data value + Token.data taken) (data next)) scanned
    (fun longer before c scanned goesOn kept => ?_) still
  exact (each longer c goesOn scanned).weaken fun more next => kept.append

end Repetition

/-! ## Names -/

end Parse

/-- The data in what an identifier is. -/
def Identifier.data : Identifier → Multiset Datum
  | .plain text _ => {.word text}
  | .applied segment => segment.data

namespace Parse

section Names

variable {name : Parse Name} {c : Cursor}

theorem keeps_typeArguments (each : ∀ c, Keeps 0 name Name.data c) :
    Keeps 0 (typeArguments name) (total Name.data) c :=
  .skip (silent_expect rfl) fun _ _ => .bind (keeps_separated each) fun _ _ =>
    .skip (silent_expect rfl) fun _ _ => .pure (zero_add _).symm

theorem keeps_identifierOf (each : ∀ c, Keeps 0 name Name.data c) :
    Keeps 0 (identifierOf name) Identifier.data c := by
  refine .word fun token _ _ _ => .look (.ite (fun _ => ?_) fun _ => .pure (zero_add _).symm)
  refine .skip silent_freshId fun id _ => .bind (keeps_typeArguments each) fun arguments _ => ?_
  refine .skip (silent_spanFrom _) fun span _ => .pure ?_
  rw [Identifier.data, Segment.data_eq, zero_add]

theorem keeps_segmentOf (each : ∀ c, Keeps 0 name Name.data c) :
    Keeps 0 (segmentOf name) Segment.data c := by
  refine .bind (keeps_identifierOf each) fun identifier _ => ?_
  cases identifier with
  | plain text span =>
    refine .skip silent_freshId fun id _ => .pure ?_
    rw [Segment.data_eq, total_nil, add_zero, zero_add]
    rfl
  | applied segment => exact .pure (zero_add _).symm

end Names

variable {c : Cursor}

theorem keeps_nameUpTo (n : Nat) : Keeps 0 (nameUpTo n) Name.data c := by
  induction n generalizing c with
  | zero => exact .halt
  | succ n ih =>
    have segment (c : Cursor) := keeps_segmentOf (c := c) fun _ => ih
    have further : ∀ c : Cursor, decide (c.kind = .dot) = true →
        Keeps 0 (do let _ ← advance; segmentOf (nameUpTo n)) Segment.data c := fun c isPoint =>
      .mark (of_decide_eq_true isPoint ▸ rfl) fun _ => segment _
    refine .skip silent_here fun start c₁ => .bind (segment c₁) fun first c₂ => ?_
    refine .bind (keeps_repeatWhile further) fun rest _ => ?_
    refine .skip (silent_spanFrom _) fun span _ => .pure ?_
    rw [Name.data_eq, total_cons, zero_add]

/-- **A name keeps data**: the texts of its identifiers. -/
theorem keeps_name : Keeps 0 name Name.data c :=
  .look (keeps_nameUpTo _)

theorem keeps_segment : Keeps 0 segment Segment.data c :=
  keeps_segmentOf fun _ => keeps_name

theorem keeps_typeParameter : Keeps 0 typeParameter TypeParameter.data c := by
  refine .word fun token _ _ _ => .skip (silent_consume rfl) fun bounded c' => ?_
  dsimp only
  split
  · have bound : Keeps 0 (some <$> name) (fun bound => total Name.data bound.toList) c' :=
      .map keeps_name fun name => by simp
    refine .bind bound fun bound _ => .skip (silent_separator _) fun _ _ => .pure ?_
    rw [TypeParameter.data, zero_add]
  · rw [pure_bind]
    refine .skip (silent_separator _) fun _ _ => .pure ?_
    rw [TypeParameter.data, Option.toList_none, total_nil, add_zero, zero_add]

theorem keeps_typeParameters : Keeps 0 typeParameters (total TypeParameter.data) c := by
  refine .skip (silent_consume rfl) fun opens _ => .ite (fun _ => ?_) fun _ => .pure rfl
  refine .bind (keeps_repeatUntil fun _ => keeps_typeParameter) fun parameters _ => ?_
  exact .skip (silent_expect rfl) fun _ _ => .pure (zero_add _).symm

end Parse

end FrontEnd

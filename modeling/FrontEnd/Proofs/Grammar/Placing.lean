import FrontEnd.Proofs.Grammar.Entering
import FrontEnd.Proofs.Grammar.NumberedFile
import FrontEnd.Proofs.Grammar.ProgressFile
import FrontEnd.Proofs.Token.Coverage
import FrontEnd.Symbol.Registration

/-!
# Where declarations start

A declaration makes its claims at the starts of tokens: its own at its first token, those of its
type parameters, fields and methods at tokens behind it. No token is claimed at twice. So where the
starts of the tokens ascend, as they do in every text, the claims of a file stand at different
offsets (`File.nodup_offsets_claims`), and their positions tell them apart.

An action is said to place its value (`Places`) when the offsets at which the value makes claims lie
between the places of the cursor before and behind it, also behind offsets that were taken before.
What begins with a mark of its own start has that offset open until it takes a token (`Opens`). The
rules follow the actions; an action that makes no claims only moves on (`Lies.pass`), which is
what is known of it already. They ask little of what it means that offsets are taken (`TakingLaw`),
so that they are stated for every such meaning (`Lies`).
-/

namespace FrontEnd

namespace Cursor

variable {c c' : Cursor}

/-- The starts of the tokens of a cursor ascend. -/
def Ascends (c : Cursor) : Prop :=
  c.tokens.Pairwise fun a b => a.span.start.offset < b.span.start.offset

theorem Walks.ascends (walks : c.Walks c') (ascends : c.Ascends) : c'.Ascends := by
  rw [Ascends, walks.tokens_eq]
  exact ascends

/-- **A cursor that took a token stands further on in the text.** -/
theorem Walks.here_lt (walks : c.Walks c') (ascends : c.Ascends)
    (fewer : c'.left.length < c.left.length) : c.here.offset < c'.here.offset := by
  have total := c.index_add_length_left
  have totalNext := c'.index_add_length_left
  rw [walks.tokens_eq] at totalNext
  have less : c.index < c'.index := by omega
  obtain ⟨inside, current⟩ := List.getElem?_eq_some_iff.1 c.current_eq
  have currentNext := c'.current_eq
  rw [walks.tokens_eq] at currentNext
  obtain ⟨insideNext, currentNext⟩ := List.getElem?_eq_some_iff.1 currentNext
  have apart := List.pairwise_iff_getElem.1 ascends c.index c'.index inside insideNext less
  rwa [current, currentNext] at apart

/-- A walk goes on in the text. -/
theorem Walks.here_le (walks : c.Walks c') (ascends : c.Ascends) :
    c.here.offset ≤ c'.here.offset := by
  have total := c.index_add_length_left
  have totalNext := c'.index_add_length_left
  have further := walks.index_le
  rw [walks.tokens_eq] at totalNext
  by_cases stays : c'.left.length < c.left.length
  · exact Nat.le_of_lt (walks.here_lt ascends stays)
  · have same : c'.index = c.index := by omega
    have current := c'.current_eq
    rw [walks.tokens_eq, same, c.current_eq] at current
    apply Nat.le_of_eq
    rw [here, here, Option.some.inj current]

end Cursor

/-- Offsets that are taken stay taken further on. -/
theorem Taken.mono {first next last : Nat} {offsets : List Nat} (taken : Taken first offsets next)
    (further : next ≤ last) : Taken first offsets last := by
  have behind := taken.append (.none further)
  rwa [List.append_nil] at behind

/-- **What it takes for offsets to be taken between two places**: nothing is taken in no space, a
place can be taken, what is taken in two spaces in a row is taken in both, space may be left, and
`Fewer` offsets may be taken instead. -/
class TakingLaw (L : Nat → List Nat → Nat → Prop) (Fewer : outParam (List Nat → List Nat → Prop)) :
    Prop where
  none (place : Nat) : L place [] place
  single (place : Nat) : L place [place] (place + 1)
  append {first next last : Nat} {offsets further : List Nat} :
    L first offsets next → L next further last → L first (offsets ++ further) last
  mono {first next last : Nat} {offsets : List Nat} :
    L first offsets next → next ≤ last → L first offsets last
  fewer {first next : Nat} {offsets further : List Nat} :
    L first offsets next → Fewer further offsets → L first further next
  refl (offsets : List Nat) : Fewer offsets offsets

instance : TakingLaw Taken List.Subperm where
  none place := .none (Nat.le_refl place)
  single := .single
  append := .append
  mono := .mono
  fewer := .subperm
  refl := .refl

/-- **The offsets of what an action gives lie in the space that it takes**: behind `used`, the
offsets of its value are taken up to where the cursor stands then. -/
def Lies {α : Type} (L : Nat → List Nat → Nat → Prop) (used : List Nat) (action : Parse α)
    (offsets : α → List Nat) (c : Cursor) : Prop :=
  c.Ends → c.Ascends → ∀ ⦃value c'⦄, action c = .ok value c' → c.Walks c' ∧
    ∀ first, L first used c.here.offset → L first (offsets value) c'.here.offset

/-- **An action places what it gives**: the offsets of its value are taken, none of them twice. -/
abbrev Places {α : Type} (used : List Nat) (action : Parse α) (offsets : α → List Nat)
    (c : Cursor) : Prop :=
  Lies Taken used action offsets c

/-- **An action places what it gives and takes a token**, so that the offset of the current token
may be among those taken before. -/
def Opens {α : Type} (used : List Nat) (action : Parse α) (offsets : α → List Nat)
    (c : Cursor) : Prop :=
  c.Ends → c.Ascends → ∀ ⦃value c'⦄, action c = .ok value c' → c.Walks c' ∧
    ∀ first, Taken first used (c.here.offset + 1) → Taken first (offsets value) c'.here.offset

/-- What is known of a run that ends well. -/
theorem Moves.of_eq_ok {α : Type} {action : Parse α} {least : Nat} {c c' : Cursor} {value : α}
    (moves : Moves action least c) (ends : c.Ends) (run : action c = .ok value c') :
    c.Walks c' ∧ c'.left.length + least ≤ c.left.length := by
  have moved := moves ends
  rw [run] at moved
  cases moved with
  | ended walks fewer => exact ⟨walks, fewer⟩

/-- **What is known of an action that only moves, with another behind it**: the run of the first
ends where the second starts, in the same tokens. -/
theorem Moves.of_bind_eq_ok {α β : Type} {action : Parse α} {next : α → Parse β} {least : Nat}
    {c c' : Cursor} {value : β} (moves : Moves action least c) (ends : c.Ends)
    (ascends : c.Ascends) (run : (action >>= next) c = .ok value c') :
    ∃ given between, c.Walks between ∧ between.left.length + least ≤ c.left.length ∧
      between.Ends ∧ between.Ascends ∧ next given between = .ok value c' := by
  obtain ⟨given, between, firstRun, restRun⟩ := bind_eq_ok.1 run
  obtain ⟨walks, fewer⟩ := moves.of_eq_ok ends firstRun
  exact ⟨given, between, walks, fewer, walks.ends ends, walks.ascends ascends, restRun⟩

namespace Lies

open Token

variable {α β : Type} {L : Nat → List Nat → Nat → Prop} {used : List Nat} {action : Parse α}
  {next : α → Parse β} {offsets : α → List Nat} {final : β → List Nat} {c : Cursor}

theorem halt {halt : Halt} : Lies L used (throw halt : Parse α) offsets c := by
  intro ends ascends value c' run
  exact absurd run throw_ne_ok

/-- An action that looks at the cursor. -/
theorem look {next : Cursor → Parse β} (behind : Lies L used (next c) final c) :
    Lies L used (get >>= next) final c :=
  behind

theorem onKind {next : Kind → Parse β} (behind : Lies L used (next c.kind) final c) :
    Lies L used (Parse.kind >>= next) final c :=
  behind

/-- A span keeps the start that was marked. -/
theorem close {next : Span → Parse β} {start : Position}
    (behind : ∀ stop, Lies L used (next ⟨start, stop⟩) final c) :
    Lies L used (Parse.spanFrom start >>= next) final c :=
  behind c.reached

variable {Fewer : List Nat → List Nat → Prop} [law : TakingLaw L Fewer]

include law

theorem pure {value : α} (fewer : Fewer (offsets value) used) :
    Lies L used (Pure.pure value) offsets c := by
  intro ends ascends given c' run
  obtain ⟨rfl, rfl⟩ := pure_eq_ok.1 run
  exact ⟨.refl, fun first taken => TakingLaw.fewer taken fewer⟩

/-- **An action behind another** goes on from what the first has taken. -/
theorem bind (here : Lies L [] action offsets c)
    (behind : ∀ value c', Lies L (used ++ offsets value) (next value) final c') :
    Lies L used (action >>= next) final c := by
  intro ends ascends value c' run
  obtain ⟨given, between, firstRun, restRun⟩ := bind_eq_ok.1 run
  obtain ⟨walks, taken⟩ := here ends ascends firstRun
  obtain ⟨walksOn, takenOn⟩ :=
    behind given between (walks.ends ends) (walks.ascends ascends) restRun
  refine ⟨walks.trans walksOn, fun first before => takenOn first ?_⟩
  exact TakingLaw.append before (taken _ (TakingLaw.none _))

/-- An action whose value has no offsets only moves on. -/
theorem pass (moves : Moves action 0 c)
    (behind : ∀ value c', Lies L used (next value) final c') :
    Lies L used (action >>= next) final c := by
  intro ends ascends value c' run
  obtain ⟨given, between, walks, -, endsOn, ascendsOn, restRun⟩ :=
    moves.of_bind_eq_ok ends ascends run
  obtain ⟨walksOn, takenOn⟩ := behind given between endsOn ascendsOn restRun
  refine ⟨walks.trans walksOn, fun first before => takenOn first ?_⟩
  exact TakingLaw.mono before (walks.here_le ascends)

/-- An action without offsets of its own. -/
theorem idle (moves : Moves action 0 c) : Lies L [] action (fun _ => []) c := by
  rw [← bind_pure action]
  exact .pass moves fun _ _ => .pure (TakingLaw.refl L [])

/-- A token is passed, whatever it is. -/
theorem step {next : Token → Parse β} (notEnd : c.kind ≠ .eof)
    (behind : c.next.kind = c.peek 1 → Lies L used (next c.current) final c.next) :
    Lies L used (Parse.advance >>= next) final c := by
  intro ends ascends value c' run
  have walks : c.Walks c.next := .single (.token notEnd)
  obtain ⟨walksOn, takenOn⟩ := behind (Cursor.kind_next (ends.ahead_ne_nil notEnd))
    (walks.ends ends) (walks.ascends ascends) run
  refine ⟨walks.trans walksOn, fun first before => takenOn first ?_⟩
  exact TakingLaw.mono before (walks.here_le ascends)

theorem map {f : α → β} (here : Lies L [] action offsets c)
    (fewer : ∀ value, Fewer (final (f value)) (offsets value)) :
    Lies L [] (f <$> action) final c := by
  rw [map_eq_pure_bind]
  exact bind here fun value c' => pure (fewer value)

/-- A token that is taken, with its own offset. -/
theorem advance (notEnd : c.kind ≠ .eof) :
    Lies L [] Parse.advance (fun token => [token.span.start.offset]) c := by
  intro ends ascends token c' run
  obtain ⟨walks, fewer⟩ := (Parse.moves_advance notEnd).of_eq_ok ends run
  cases run
  refine ⟨walks, fun first before => ?_⟩
  exact TakingLaw.mono (TakingLaw.append before (TakingLaw.single _)) (walks.here_lt ascends fewer)

end Lies

namespace Places

variable {β : Type} {used : List Nat} {final : β → List Nat} {c : Cursor}

/-- **A start that is marked** has to be passed by what follows. -/
theorem mark {next : Position → Parse β}
    (behind : Opens (used ++ [c.here.offset]) (next c.here) final c) :
    Places used (Parse.here >>= next) final c := by
  intro ends ascends value c' run
  obtain ⟨walks, taken⟩ := behind ends ascends run
  refine ⟨walks, fun first before => taken first ?_⟩
  exact before.append (.single c.here.offset)

end Places

namespace Opens

variable {α β : Type} {used : List Nat} {action : Parse α} {next : α → Parse β}
  {final : β → List Nat} {c : Cursor}

/-- An action that may take nothing leaves the start open. -/
theorem pass (moves : Moves action 0 c) (behind : ∀ value c', Opens used (next value) final c') :
    Opens used (action >>= next) final c := by
  intro ends ascends value c' run
  obtain ⟨given, between, walks, -, endsOn, ascendsOn, restRun⟩ :=
    moves.of_bind_eq_ok ends ascends run
  obtain ⟨walksOn, takenOn⟩ := behind given between endsOn ascendsOn restRun
  refine ⟨walks.trans walksOn, fun first before => takenOn first ?_⟩
  exact before.mono (Nat.succ_le_succ (walks.here_le ascends))

/-- **An action that takes a token passes the start.** -/
theorem take (moves : Moves action 1 c) (behind : ∀ value c', Places used (next value) final c') :
    Opens used (action >>= next) final c := by
  intro ends ascends value c' run
  obtain ⟨given, between, walks, fewer, endsOn, ascendsOn, restRun⟩ :=
    moves.of_bind_eq_ok ends ascends run
  obtain ⟨walksOn, takenOn⟩ := behind given between endsOn ascendsOn restRun
  refine ⟨walks.trans walksOn, fun first before => takenOn first ?_⟩
  exact before.mono (walks.here_lt ascends fewer)

end Opens

/-! ## What stands where -/

/-- The offset at which a claim is made. -/
def Registration.offset (r : Registration) : Nat :=
  r.claim.value.position.offset

namespace Registration

/-- The offsets at which claims are made. -/
def offsets (claims : List Registration) : List Nat :=
  claims.map offset

theorem offsets_append (a b : List Registration) : offsets (a ++ b) = offsets a ++ offsets b :=
  List.map_append

theorem offsets_ofStructs (owner : Path) (ds : List StructDecl) :
    offsets (ofStructs owner ds) = ds.flatMap fun d => offsets (ofStruct owner d) := by
  induction ds with
  | nil => rfl
  | cons first rest ih => rw [ofStructs, offsets_append, ih, List.flatMap_cons]

end Registration

/-- The offsets at which type parameters are declared. -/
def parameterOffsets (parameters : List TypeParameter) : List Nat :=
  parameters.flatMap fun p => [p.span.start.offset]

open Registration

theorem offsets_ofParameters (owner : Path) (parameters : List TypeParameter) :
    offsets (ofParameters owner parameters) = parameterOffsets parameters := by
  rw [offsets, ofParameters, List.map_map]
  exact List.map_eq_flatMap

theorem offsets_ofFields (owner : Path) (fields : List Field) :
    offsets (ofFields owner fields) = fields.flatMap fun f => [f.span.start.offset] := by
  rw [offsets, ofFields, List.map_map]
  exact List.map_eq_flatMap

/-- **The offsets of a structure**: its own, those of its type parameters and of its fields, and
those of the structures inside it. -/
theorem offsets_ofStruct (owner : Path) (d : StructDecl) :
    offsets (ofStruct owner d) = d.span.start.offset :: (parameterOffsets d.parameters ++
      d.fields.flatMap (fun f => [f.span.start.offset]) ++
      d.inner.flatMap fun inner => offsets (ofStruct (owner ++ [d.name]) inner)) := by
  cases d with
  | mk isClosed name parameters bases fields inner span =>
    rw [ofStruct, ← offsets_ofParameters (owner ++ [name]), ← offsets_ofFields (owner ++ [name]),
      ← offsets_ofStructs, ← offsets_append, ← offsets_append]
    rfl

/-- The offsets of a function: its own and those of its type parameters. -/
theorem offsets_ofFunction (d : FnDecl) :
    offsets (ofFunction d) = d.span.start.offset :: parameterOffsets d.parameters := by
  rw [← offsets_ofParameters d.name.path]
  rfl

/-- The offsets of an interface: its own, those of its type parameters and of its methods. -/
theorem offsets_ofInterface (d : InterfaceDecl) :
    offsets (ofInterface d) = d.span.start.offset :: (parameterOffsets d.parameters ++
      d.methods.flatMap fun m => [m.span.start.offset]) := by
  rw [← offsets_ofParameters [d.name], ← List.map_eq_flatMap, ofInterface]
  simp [offsets, Function.comp_def, Registration.offset, Claim.declared, Symbol.Value.position]

/-- The offsets at which the members of a structure make their claims. -/
def memberOffsets (owner : Path) : Field ⊕ StructDecl → List Nat :=
  Sum.elim (fun f => [f.span.start.offset]) fun d => offsets (ofStruct owner d)

namespace Parse

open Token

variable {α : Type} {offsets : α → List Nat} {c : Cursor} {g : Grammar}

/-! ## Repetition -/

section Repetition

variable {L : Nat → List Nat → Nat → Prop} {Fewer : List Nat → List Nat → Prop}
  [law : TakingLaw L Fewer]

include law

theorem lies_expect {k : Kind} (notEnd : k ≠ .eof) :
    Lies L [] (expect k) (fun token => [token.span.start.offset]) c := by
  refine .look ?_
  split
  next here => exact .advance (here ▸ notEnd)
  next => exact .look .halt

/-- **A repeated action**: what it gives lies in the space that it takes when each value does. -/
theorem lies_repeatUpTo {item : Parse α} {holds : Cursor → Bool}
    (each : ∀ c, holds c = true → Lies L [] item offsets c) (n : Nat) (c : Cursor) :
    Lies L [] (repeatUpTo holds item n) (·.flatMap offsets) c := by
  induction n generalizing c with
  | zero =>
    refine .look ?_
    split
    · exact .halt
    · exact .pure (TakingLaw.refl L _)
  | succ n ih =>
    refine .look ?_
    split
    next goesOn =>
      exact .bind (each c goesOn) fun first c' => .bind (ih c') fun rest _ =>
        .pure (TakingLaw.refl L _)
    next => exact .pure (TakingLaw.refl L _)

theorem lies_repeatWhile {item : Parse α} {holds : Cursor → Bool}
    (each : ∀ c, holds c = true → Lies L [] item offsets c) :
    Lies L [] (repeatWhile holds item) (·.flatMap offsets) c :=
  .look (lies_repeatUpTo each _ c)

theorem lies_separated {item : Parse α} (each : ∀ c, Lies L [] item offsets c) (closing : Kind) :
    Lies L [] (separated closing item) (·.flatMap offsets) c := by
  refine lies_repeatWhile fun c _ => .bind (each c) fun value _ => ?_
  exact .pass (moves_separator closing) fun _ _ => .pure (TakingLaw.refl L _)

/-- **An action that grows a value**: what it gives lies in the space when each step goes on from
the value before. -/
theorem lies_growUpTo {step : α → Parse α}
    (each : ∀ value c, Lies L (offsets value) (step value) offsets c) (holds : Cursor → Bool)
    (n : Nat) (value : α) (c : Cursor) :
    Lies L (offsets value) (growUpTo holds step n value) offsets c := by
  induction n generalizing value c with
  | zero =>
    refine .look ?_
    split
    · exact .halt
    · exact .pure (TakingLaw.refl L _)
  | succ n ih =>
    refine .look ?_
    split
    · intro ends ascends grown c' run
      obtain ⟨next, between, stepRun, restRun⟩ := bind_eq_ok.1 run
      obtain ⟨walks, taken⟩ := each value c ends ascends stepRun
      obtain ⟨walksOn, takenOn⟩ :=
        ih next between (walks.ends ends) (walks.ascends ascends) restRun
      exact ⟨walks.trans walksOn, fun first before => takenOn first (taken first before)⟩
    · exact .pure (TakingLaw.refl L _)

theorem lies_growWhile {step : α → Parse α}
    (each : ∀ value c, Lies L (offsets value) (step value) offsets c) (holds : Cursor → Bool)
    (value : α) : Lies L (offsets value) (growWhile holds step value) offsets c :=
  .look (lies_growUpTo each holds _ value c)

end Repetition

/-! ## Declarations -/

theorem places_typeParameter :
    Places [] typeParameter (fun p => [p.span.start.offset]) c := by
  refine .bind (lies_expect nofun) fun token _ => .pass (moves_consume nofun) fun bounded _ => ?_
  dsimp only
  split
  · exact .pass (moves_name.map _).weaken fun _ _ => .pass (moves_separator _) fun _ _ =>
      .pure (.refl _)
  · rw [pure_bind]
    exact .pass (moves_separator _) fun _ _ => .pure (.refl _)

theorem places_typeParameters : Places [] typeParameters parameterOffsets c := by
  refine .pass (moves_consume nofun) fun opens _ => ?_
  split
  · exact .bind (lies_repeatWhile fun _ _ => places_typeParameter) fun parameters _ =>
      .pass (moves_further nofun) fun _ _ => .pure (.refl _)
  · exact .pure List.nil_subperm

/-- A field is claimed at its first token. -/
theorem places_field (ends : g.LeavesEnd) :
    Places [] (field g) (fun f => [f.span.start.offset]) c := by
  refine .mark (.pass (moves_consume nofun) fun _ _ => .take moves_name fun _ _ => ?_)
  refine .pass moves_arrayMark fun _ _ => .pass (moves_further nofun) fun _ _ => ?_
  refine .pass (moves_consume nofun) fun _ _ => ?_
  dsimp only
  split
  · exact .pass ((moves_expr ends _).map _).weaken fun _ _ => .pass (moves_further nofun) fun _ _ =>
      .close fun _ => .pure (.refl _)
  · rw [pure_bind]
    exact .pass (moves_further nofun) fun _ _ => .close fun _ => .pure (.refl _)

theorem places_structMember (ends : g.LeavesEnd) {inner : Parse StructDecl} {owner : Path}
    (each : ∀ c, Places [] inner (fun d => Registration.offsets (ofStruct owner d)) c) :
    Places [] (structMember g inner) (memberOffsets owner) c := by
  refine .onKind ?_
  split
  · exact .map (each c) fun _ => .refl _
  · exact .map (each c) fun _ => .refl _
  · exact .map (places_field ends) fun _ => .refl _

/-- **A structure is claimed at its first token**, and its members behind it. -/
theorem places_structUpTo (ends : g.LeavesEnd) (n : Nat) (owner : Path) (c : Cursor) :
    Places [] (structUpTo g n) (fun d => Registration.offsets (ofStruct owner d)) c := by
  induction n generalizing owner c with
  | zero => exact .halt
  | succ n ih =>
    refine .mark (.pass (moves_consume nofun) fun _ _ => .take (moves_expect nofun) fun _ _ => ?_)
    refine .pass (moves_further nofun) fun token _ => ?_
    refine .bind places_typeParameters fun parameters _ => ?_
    refine .pass moves_bases fun bases _ => .pass (moves_further nofun) fun _ _ => ?_
    refine .bind (lies_repeatWhile
      fun _ _ => places_structMember ends (ih (owner ++ [token.text]))) fun members _ => ?_
    refine .pass (moves_further nofun) fun _ _ => .close fun stop => .pure ?_
    have apart := perm_flatMap_elim (fun f : Field => [f.span.start.offset])
      (fun d => Registration.offsets (ofStruct (owner ++ [token.text]) d)) members
    rw [offsets_ofStruct, List.append_assoc]
    exact ((apart.append_left _).cons _).subperm

theorem places_struct (ends : g.LeavesEnd) (owner : Path) :
    Places [] (struct g) (fun d => Registration.offsets (ofStruct owner d)) c :=
  .look (places_structUpTo ends _ owner c)

/-- A function is claimed at its first token, its type parameters behind it. -/
theorem places_function (ends : g.LeavesEnd) :
    Places [] (function g) (fun d => d.span.start.offset :: parameterOffsets d.parameters) c := by
  refine .mark (.pass (moves_consume nofun) fun _ _ => .take (moves_expect nofun) fun _ _ => ?_)
  refine .bind places_typeParameters fun parameters _ => .pass moves_name.weaken fun _ _ => ?_
  refine .pass moves_inputs fun _ _ => .pass moves_output fun _ _ => ?_
  exact .pass (moves_block ends).weaken fun _ _ => .close fun _ => .pure (.refl _)

/-- A method is claimed at its first token. -/
theorem places_method : Places [] method (fun d => [d.span.start.offset]) c := by
  refine .mark (.pass (moves_consume nofun) fun _ _ => .take (moves_expect nofun) fun _ _ => ?_)
  refine .pass (moves_further nofun) fun _ _ => .pass moves_inputs fun _ _ => ?_
  exact .pass moves_output fun _ _ => .pass (moves_further nofun) fun _ _ =>
    .close fun _ => .pure (.refl _)

/-- An interface is claimed at its first token, its type parameters and methods behind it. -/
theorem places_interface (notEnd : c.kind ≠ .eof) :
    Places [] interface (fun d => d.span.start.offset :: (parameterOffsets d.parameters ++
      d.methods.flatMap fun m => [m.span.start.offset])) c := by
  refine .bind (.advance notEnd) fun _ _ => .pass (moves_further nofun) fun _ _ => ?_
  refine .bind places_typeParameters fun parameters _ => .pass (moves_further nofun) fun _ _ => ?_
  refine .bind (lies_repeatWhile fun _ _ => places_method) fun methods _ => ?_
  exact .pass (moves_further nofun) fun _ _ => .close fun _ => .pure (.refl _)

theorem places_synonym (notEnd : c.kind ≠ .eof) :
    Places [] synonym (fun d => [d.span.start.offset]) c := by
  refine .bind (.advance notEnd) fun _ _ => .pass (moves_further nofun) fun _ _ => ?_
  refine .pass (moves_further nofun) fun _ _ => .pass moves_name.weaken fun _ _ => ?_
  exact .pass (moves_further nofun) fun _ _ => .close fun _ => .pure (.refl _)

theorem places_enum (notEnd : c.kind ≠ .eof) :
    Places [] enum (fun d => [d.span.start.offset]) c := by
  refine .bind (.advance notEnd) fun _ _ => .pass (moves_further nofun) fun _ _ => ?_
  refine .pass (moves_further nofun) fun _ _ => ?_
  refine .pass (moves_separated fun _ _ => ?_) fun values _ => ?_
  · exact .first (moves_expect nofun) fun _ _ _ => .pure _
  · exact .pass (moves_further nofun) fun _ _ => .close fun _ => .pure (.refl _)

/-- **A declaration is placed**: it makes its claims at different offsets. -/
theorem places_decl (ends : g.LeavesEnd) :
    Places [] (decl g) (fun d => Registration.offsets (ofDecl d)) c := by
  refine .onKind ?_
  split
  next => exact .map (places_struct ends []) fun _ => .refl _
  next =>
    refine .map (places_function ends) fun d => ?_
    rw [← offsets_ofFunction]
    exact .refl _
  next known =>
    refine .map (places_interface (ne_eof_of_some ends.decl known)) fun d => ?_
    rw [← offsets_ofInterface]
    exact .refl _
  next known => exact .map (places_synonym (ne_eof_of_some ends.decl known)) fun _ => .refl _
  next known => exact .map (places_enum (ne_eof_of_some ends.decl known)) fun _ => .refl _
  next => exact .look .halt

/-! ## Files -/

section Files

variable {L : Nat → List Nat → Nat → Prop} {Fewer : List Nat → List Nat → Prop}
  [law : TakingLaw L Fewer] {taken : Decl → List Nat}

include law

/-- A file grows by one declaration, or by an import or its exports, which take no offsets. -/
theorem lies_item (each : Lies L [] (decl g) taken c) (sofar : Contents) :
    Lies L (sofar.declarations.flatMap taken) (item g sofar) (·.declarations.flatMap taken) c := by
  refine .onKind ?_
  split
  next here =>
    exact .pass (moves_importPath (by rw [here]; nofun)).weaken fun _ _ =>
      .pure (TakingLaw.refl L _)
  next here =>
    split
    · exact .look .halt
    · exact .pass (moves_exports (by rw [here]; nofun)).weaken fun _ _ =>
        .pure (TakingLaw.refl L _)
  next =>
    refine .bind each fun d _ => .pure ?_
    rw [List.flatMap_append, List.flatMap_singleton]
    exact TakingLaw.refl L _

/-- **What the declarations of a file take lies in the space of the file** when what each of them
takes lies in its own. -/
theorem lies_file (each : ∀ c, Lies L [] (decl g) taken c) :
    Lies L [] (file g) (·.declarations.flatMap taken) c := by
  have contents : Lies L [] (growWhile (fun c => c.kind ≠ .eof) (item g) ⟨[], [], none⟩)
      (·.declarations.flatMap taken) c :=
    lies_growWhile (fun sofar c => lies_item (each c) sofar) _ ⟨[], [], none⟩
  exact .bind contents fun _ _ => .look (.pure (TakingLaw.refl L _))

end Files

end Parse

/-! ## The tokens of a text -/

/-- The tokens of a text start one behind the other. -/
theorem Token.Covers.ascends {name : String} {text : List Char} {tokens : List Token}
    (covers : Covers name text tokens) :
    tokens.Pairwise fun a b => a.span.start.offset < b.span.start.offset := by
  obtain ⟨front, rfl, extents⟩ := covers.ended
  obtain ⟨ordered, -, before⟩ := List.pairwise_append.1 covers.ordered
  refine List.pairwise_append.2 ⟨?_, List.pairwise_singleton .., fun a memA b memB => ?_⟩
  · exact ordered.imp_of_mem fun memA _ apart => Nat.lt_of_lt_of_le (extents _ memA).2.2 apart
  · exact Nat.lt_of_lt_of_le (extents a memA).2.2 (before a memA b memB)

namespace Cursor

/-- **A text is entered with its tokens that are no comments.** -/
theorem tokens_ofTokens {name : String} {text : List Char} {tokens : List Token}
    (covers : Token.Covers name text tokens) (firstId : Nat) :
    (ofTokens tokens firstId).tokens = tokens.filter (·.kind ≠ .comment) := by
  obtain ⟨front, rfl, -⟩ := covers.ended
  rw [tokens_eq_left, left_ofTokens_ended rfl, ← uncommented, uncommented_append]
  rfl

theorem ascends_ofTokens {name : String} {text : List Char} {tokens : List Token}
    (covers : Token.Covers name text tokens) (firstId : Nat) :
    (ofTokens tokens firstId).Ascends := by
  rw [Ascends, tokens_ofTokens covers]
  exact covers.ascends.filter _

end Cursor

/-- **What the declarations of a file take lies in its text** when the file is parsed from one. -/
theorem File.lies_declarations {L : Nat → List Nat → Nat → Prop}
    {Fewer : List Nat → List Nat → Prop} [law : TakingLaw L Fewer] {taken : Decl → List Nat}
    {name text : String} {tokens : List Token} {firstId nextId : Nat} {file : File}
    (each : ∀ c, Lies L [] (Parse.decl .standard) taken c)
    (scanned : Token.ofText name text = .ok tokens)
    (parsed : File.ofTokens tokens firstId = .ok (file, nextId)) :
    ∃ first last, L first (file.declarations.flatMap taken) last := by
  obtain ⟨c, run, -⟩ := File.ofTokens_eq_ok_iff.1 parsed
  obtain ⟨-, lies⟩ := Parse.lies_file each (Cursor.ends_ofTokens tokens firstId)
    (Cursor.ascends_ofTokens (Token.laid_of_scan scanned).covers firstId) run
  exact ⟨_, c.here.offset, lies _ (TakingLaw.none _)⟩

/-- **The claims of a file stand at different offsets** when it is parsed from a text. -/
theorem File.nodup_offsets_claims {name text : String} {tokens : List Token}
    {firstId nextId : Nat} {file : File} (scanned : Token.ofText name text = .ok tokens)
    (parsed : File.ofTokens tokens firstId = .ok (file, nextId)) :
    (offsets file.claims).Nodup := by
  obtain ⟨first, last, taken⟩ := File.lies_declarations
    (fun _ => Parse.places_decl Grammar.leavesEnd_standard) scanned parsed
  rw [File.claims, offsets, List.map_flatMap]
  exact taken.nodup

end FrontEnd

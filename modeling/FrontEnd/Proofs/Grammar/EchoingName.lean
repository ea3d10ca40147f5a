import FrontEnd.Proofs.Grammar.Carrying
import FrontEnd.Proofs.Grammar.Echoing
import FrontEnd.Proofs.Grammar.YieldingName

/-!
# Names read again in another place

The lookahead behind a name is the one thing that does not stop at the end of the tokens in question. A
list that it finds in front of a token that no list has ends before this token, and is found in the
second place too; where it finds none, the name stays without arguments. In the second place a list may
open behind such a name only by going past the mark, and that this does not happen is presupposed. So
every name is echoed (`Parse.echoes_name`).
-/

namespace FrontEnd

open Token Lookahead

namespace Aspect

/-- A name is compared without its numbers and positions. -/
def name : Aspect Name :=
  ⟨Name, Name.relabel .erase, Name.bare⟩

/-- A segment is compared without its numbers and positions. -/
def segment : Aspect Segment :=
  ⟨Segment, Segment.relabel .erase, Segment.bare⟩

/-- An identifier is compared without its numbers and positions. -/
def identifier : Aspect Identifier where
  Seen := Identifier
  seen := Identifier.relabel .erase
  bare
    | .plain _ span => [span]
    | .applied segment => segment.bare

end Aspect

namespace Parse

variable {p : Parting} {c : Cursor}

/-! ## Names -/

section Names

variable {name other : Parse Name}

theorem echoes_typeArguments (each : ∀ c, Echoes p [] 1 0 .name name other c) (c : Cursor) :
    Echoes p [] 2 0 (Aspect.list .name) (typeArguments name) (typeArguments other) c := by
  refine .expect (fun _ => ?_) (.inl nofun)
  refine .bind (echoes_separated (fun c => (each c).weaken (Nat.zero_le _) (Nat.zero_le _)
    (List.Subset.refl _)) _) (fun names otherNames c' alike _ => ?_) (Nat.le_refl _)
  exact .expect (fun _ => .pure (List.Subset.refl _) alike) (.inl nofun)

/-- A list that opens in the first place lies within the tokens, and so opens in the second. -/
theorem opensArguments_of_beside {e : List Token} {d : Cursor} (beside : p.Beside e c d)
    (opens : c.opensArguments = true) : d.opensArguments = true := by
  rw [Cursor.opensArguments_eq, beside.here, Parting.first, List.map_append, List.map_cons] at opens
  rw [Cursor.opensArguments_eq, beside.there, List.map_append]
  exact isSome_afterList?_append p.closes opens _

/-- **No list opens in the second place** where none does in the first: one that does not go past the
mark would open in both, and one that does is presupposed not to be there. -/
theorem opensArguments_eq_false_of_beside {e : List Token} {d : Cursor} {name : Token}
    (beside : p.Beside e c d) (noList : c.opensArguments = false) (isName : name.kind = .identifier)
    (clear : p.Clear [name.span] (name :: e)) : d.opensArguments = false := by
  rw [Cursor.opensArguments_eq, beside.there]
  cases mayPass : inList p.mark.kind with
  | true =>
    have none : afterList? ((e ++ p.second).map Token.kind) = none :=
      clear mayPass [] name e rfl isName (List.mem_singleton.2 rfl)
    rw [none, Option.isSome_none]
  | false =>
    rw [Cursor.opensArguments_eq, beside.here, List.map_append] at noList
    rw [Parting.second, List.map_append, List.map_cons, Bool.eq_false_iff]
    intro opens
    rw [isSome_afterList?_append mayPass opens _] at noList
    cases noList

/-- An identifier with a list behind it is echoed. -/
theorem echoes_identifierOf_applied (each : ∀ c, Echoes p [] 1 0 .name name other c)
    (opens : c.next.opensArguments = true) :
    Echoes p [] 1 0 .identifier (identifierOf name) (identifierOf other) c := by
  refine .expect (fun _ => ?_) (.inl nofun)
  refine .look (.ite (fun _ => ?_) (absurd opens)) fun e d beside _ _ => ?_
  · suffices applied : Echoes p [] 2 0 .identifier _ _ _ from applied.few
    refine .still echoes_freshId (fun id otherId c' => ?_) (Nat.zero_le _)
    refine .bind (echoes_typeArguments each c') (fun names otherNames c'' alike _ => ?_)
      (Nat.le_refl _)
    refine .still (echoes_spanFrom _ _) (fun span otherSpan _ => .pure ?_ ?_) (Nat.le_refl _)
    · exact Segment.bare_arguments_subset ⟨id, c.current.text, names, span⟩
    · exact congrArg Identifier.applied (Segment.erase_eq_iff.2 ⟨rfl, alike⟩)
  · rw [if_pos opens, if_pos (opensArguments_of_beside beside opens)]

/-- An identifier without a list behind it. -/
theorem run_identifierOf_plain (here : c.kind = .identifier)
    (noList : c.next.opensArguments = false) :
    identifierOf name c = .ok (.plain c.current.text c.current.span) c.next := by
  refine bind_eq_ok.2 ⟨_, _, run_expect here, ?_⟩
  rw [get_bind, noList]
  rfl

/-- An identifier without a list behind it is echoed, since no list opens in the second place. -/
theorem echoes_identifierOf_plain (noList : c.next.opensArguments = false) :
    Echoes p [] 1 0 .identifier (identifierOf name) (identifierOf other) c := by
  intro found c' run
  obtain ⟨_, _, taken, -⟩ := bind_eq_ok.1 run
  have here : c.kind = .identifier := kind_of_run_expect taken
  rw [run_identifierOf_plain here noList] at run
  cases run
  obtain ⟨front, left, single⟩ := c.exists_front_next
  refine ⟨front, List.nil_subset _, left, ?_, ?_, ?_⟩
  · intro some
    rw [single some]
    exact Nat.le_refl _
  · intro some token mem
    rw [single some] at mem
    cases mem
    exact fun isOpen => Kind.noConfusion (here.symm.trans isOpen)
  · intro e d ahead _ _ clear there
    rw [single (p.ahead_ne_nil ahead)] at clear there
    obtain ⟨current, left⟩ : d.current = c.current ∧ d.next.left = e ++ p.second :=
      Cursor.next_of_left there (by simp [Parting.second])
    have beside : p.Beside e c.next d.next := ⟨ahead, left⟩
    have noListThere : d.next.opensArguments = false :=
      opensArguments_eq_false_of_beside beside noList here clear
    have isIdentifier : d.kind = .identifier := by
      rw [Cursor.kind, current]
      exact here
    refine ⟨_, d.next, run_identifierOf_plain isIdentifier noListThere, left, ?_⟩
    rw [current]

/-- **An identifier is echoed**, with a list of arguments behind it or without. -/
theorem echoes_identifierOf (each : ∀ c, Echoes p [] 1 0 .name name other c) (c : Cursor) :
    Echoes p [] 1 0 .identifier (identifierOf name) (identifierOf other) c := by
  cases opens : c.next.opensArguments with
  | true => exact echoes_identifierOf_applied each opens
  | false => exact echoes_identifierOf_plain opens

theorem echoes_segmentOf (each : ∀ c, Echoes p [] 1 0 .name name other c) (c : Cursor) :
    Echoes p [] 1 0 .segment (segmentOf name) (segmentOf other) c := by
  refine .bind (echoes_identifierOf each c) (fun found otherFound c' alike _ => ?_) (Nat.le_refl _)
  cases found with
  | plain text span =>
    cases otherFound with
    | plain otherText otherSpan =>
      obtain ⟨rfl, -⟩ : otherText = text ∧ _ := Identifier.plain.inj alike
      exact .still echoes_freshId (fun _ _ _ => .pure (List.Subset.refl _)
        (Segment.erase_eq_iff.2 ⟨rfl, rfl⟩)) (Nat.le_refl _)
    | applied => cases alike
  | applied segment =>
    cases otherFound with
    | plain => cases alike
    | applied other => exact .pure (List.Subset.refl _) (Identifier.applied.inj alike)

/-- The points between segments are the same in both places, for what follows is none. -/
theorem echoes_furtherSegments (each : ∀ c, Echoes p [] 1 0 .name name other c) (c : Cursor) :
    Echoes p [] 0 0 (Aspect.list .segment)
      (repeatWhile (fun c => c.kind = .dot) (do let _ ← advance; segmentOf name))
      (repeatWhile (fun c => c.kind = .dot) (do let _ ← advance; segmentOf other)) c := by
  refine echoes_repeatWhile (fun e c d beside _ _ => ?_) (fun c => ?_) c
  · cases e with
    | nil =>
      obtain ⟨here, there⟩ := beside.kinds
      have notDot : c.kind ≠ .dot := by
        intro isDot
        have closes := p.closes
        rw [← here, isDot] at closes
        cases closes
      rw [decide_eq_false notDot, decide_eq_false (there ▸ p.marks)]
    | cons => rw [beside.kind_eq (List.cons_ne_nil _ _)]
  · exact (Echoes.advance (echoes_segmentOf each _) (.inr (Nat.le_refl _))).few

/-- **A name is echoed** where it may nest as deep. -/
theorem echoes_nameUpTo {n m : Nat} (le : n ≤ m) (c : Cursor) :
    Echoes p [] 1 0 .name (nameUpTo n) (nameUpTo m) c := by
  induction n generalizing m c with
  | zero => exact .halt
  | succ n ih =>
    cases m with
    | zero => cases le
    | succ m =>
      have inner := ih (Nat.le_of_succ_le_succ le)
      refine .still echoes_here (fun start otherStart c' => ?_) (Nat.zero_le _)
      refine .bind (echoes_segmentOf inner c') (fun first otherFirst c'' alike _ => ?_) (Nat.le_refl _)
      refine .bind (echoes_furtherSegments inner c'') (fun rest otherRest c₃ alikeRest _ => ?_)
        (Nat.le_refl _)
      refine .still (echoes_spanFrom _ _) (fun _ _ _ => .pure (List.Subset.refl _) ?_) (Nat.le_refl _)
      refine Name.erase_eq_iff.2 ?_
      have firstAlike : otherFirst.relabel .erase = first.relabel .erase := alike
      have restAlike : otherRest.map (Segment.relabel .erase) = rest.map (Segment.relabel .erase) :=
        alikeRest
      rw [List.map_cons, List.map_cons, firstAlike, restAlike]

theorem echoes_name (c : Cursor) : Echoes p [] 1 0 .name Parse.name Parse.name c :=
  .byLength fun _ _ le => echoes_nameUpTo le c

theorem echoes_identifier (c : Cursor) : Echoes p [] 1 0 .identifier identifier identifier c :=
  echoes_identifierOf echoes_name c

theorem echoes_segment (c : Cursor) : Echoes p [] 1 0 .segment segment segment c :=
  echoes_segmentOf echoes_name c

end Names

end Parse

end FrontEnd

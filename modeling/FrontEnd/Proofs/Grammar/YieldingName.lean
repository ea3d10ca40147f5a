import FrontEnd.Proofs.Grammar.Yielding

/-!
# What parsing yields from the lexemes of names

The arguments of a written segment are a word of the grammar of argument lists, so the lookahead
finds them; a segment without arguments is followed by no bracket that could open a list. So a name
is read back from its lexemes wherever neither a bracket nor a point stands behind it.

**The law** (`Parse.yields_name`): from the lexemes of a name its segments are yielded, up to their
numbers and positions.
-/

namespace FrontEnd

open Token Lexeme Lookahead

/-! ## Names up to numbers and positions -/

theorem Segment.erase_eq_iff {s t : Segment} : s.relabel .erase = t.relabel .erase ↔
    s.text = t.text ∧
      s.arguments.map (Name.relabel .erase) = t.arguments.map (Name.relabel .erase) := by
  obtain ⟨id, text, arguments, span⟩ := s
  obtain ⟨id', text', arguments', span'⟩ := t
  rw [Segment.relabel, Segment.relabel, relabelNames_eq, relabelNames_eq, Segment.mk.injEq]
  constructor
  · rintro ⟨-, texts, names, -⟩
    exact ⟨texts, names⟩
  · rintro ⟨texts, names⟩
    exact ⟨rfl, texts, names, rfl⟩

theorem Name.erase_eq_iff {m n : Name} : m.relabel .erase = n.relabel .erase ↔
    m.segments.map (Segment.relabel .erase) = n.segments.map (Segment.relabel .erase) := by
  obtain ⟨segments, span⟩ := m
  obtain ⟨segments', span'⟩ := n
  rw [Name.relabel, Name.relabel, relabelSegments_eq, relabelSegments_eq, Name.mk.injEq]
  exact ⟨And.left, fun same => ⟨same, rfl⟩⟩

theorem TypeParameter.erase_eq_iff {p q : TypeParameter} :
    p.relabel .erase = q.relabel .erase ↔
      p.name = q.name ∧ p.bound.map (Name.relabel .erase) = q.bound.map (Name.relabel .erase) := by
  rw [relabel, relabel, mk.injEq]
  exact ⟨fun ⟨names, bounds, _⟩ => ⟨names, bounds⟩, fun ⟨names, bounds⟩ => ⟨names, bounds, rfl⟩⟩

/-! ## The lexemes of names -/

theorem Name.lexemes_eq (name : Name) :
    name.lexemes = joined .dot (name.segments.map Segment.lexemes) := by
  obtain ⟨segments, span⟩ := name
  rw [Name.lexemes, segmentLexemes_eq]

/-- The lexemes of a segment behind the first. -/
def furtherLexemes (segment : Segment) : List Lexeme :=
  Kind.dot.lexeme :: segment.lexemes

theorem Name.lexemes_cons (segment : Segment) (later : List Segment) (span : Span) :
    Name.lexemes ⟨segment :: later, span⟩ = segment.lexemes ++ later.flatMap furtherLexemes := by
  rw [Name.lexemes_eq, List.map_cons, joined, List.flatMap_map]
  rfl

/-- Further segments are no list of arguments for the segment in front of them. -/
theorem first_further_ne_less {later : List Segment} {rest : List Lexeme}
    (noList : first rest ≠ some .less) :
    first (later.flatMap furtherLexemes ++ rest) ≠ some .less := by
  cases later with
  | nil => exact noList
  | cons segment later => exact ne_of_first rfl (by decide)

/-- What follows a further segment is no list of arguments for it. -/
theorem ne_less_of_follows {later : List Segment} {rest behind : List Lexeme}
    (noList : first rest ≠ some .less)
    (follows : first behind = first rest ∨ ∃ t ∈ later, ∃ u, behind = furtherLexemes t ++ u) :
    first behind ≠ some .less := by
  rcases follows with follows | ⟨t, -, u, rfl⟩
  · rwa [follows]
  · exact ne_of_first rfl (by decide)

theorem Segment.lexemes_of_nil {segment : Segment} (plain : segment.arguments = []) :
    segment.lexemes = [named segment.text] := by
  obtain ⟨id, text, arguments, span⟩ := segment
  cases plain
  rfl

theorem Segment.lexemes_of_ne_nil {segment : Segment} (applied : segment.arguments ≠ []) :
    segment.lexemes = named segment.text ::
      list .less .greater (segment.arguments.map Name.lexemes) := by
  obtain ⟨id, text, arguments, span⟩ := segment
  cases arguments with
  | nil => exact absurd rfl applied
  | cons first rest => rw [Segment.lexemes, nameLexemes_eq, ← List.map_cons]

theorem Segment.first_lexemes (segment : Segment) : first segment.lexemes = some .identifier := by
  by_cases plain : segment.arguments = []
  · rw [segment.lexemes_of_nil plain]
    rfl
  · rw [segment.lexemes_of_ne_nil plain]
    rfl

/-- A name that can be written begins with an identifier. -/
theorem Name.Printable.first_lexemes {name : Name} (h : name.Printable) :
    first name.lexemes = some .identifier := by
  obtain ⟨segments, span⟩ := name
  rw [Name.lexemes_eq]
  cases segments with
  | nil => exact absurd rfl h.nonempty
  | cons segment rest => exact first_append segment.first_lexemes

/-- Items with commas between them are the items of a list. -/
theorem word_joined {words : List (List Lexeme)} (some : words ≠ [])
    (each : ∀ word ∈ words, Word .item (word.map Prod.fst)) :
    Word .items ((joined .comma words).map Prod.fst) := by
  induction words with
  | nil => exact absurd rfl some
  | cons first rest ih =>
    obtain ⟨isFirst, areRest⟩ := List.forall_mem_cons.1 each
    cases rest with
    | nil =>
      rw [joined, List.flatMap_nil, List.append_nil]
      exact .last isFirst
    | cons second rest =>
      rw [joined_cons_cons, List.map_append, List.map_cons]
      exact .more isFirst (ih (List.cons_ne_nil _ _) areRest)

/-- The arguments of a segment are a list. -/
theorem word_arguments {names : List Name} (some : names ≠ [])
    (each : ∀ name ∈ names, Word .item (name.lexemes.map Prod.fst)) :
    Word .list ((list .less .greater (names.map Name.lexemes)).map Prod.fst) := by
  have items : Word .items ((joined .comma (names.map Name.lexemes)).map Prod.fst) := by
    refine word_joined (by simpa using some) fun word mem => ?_
    obtain ⟨name, isName, rfl⟩ := List.mem_map.1 mem
    exact each name isName
  rw [list, between, List.map_cons, List.map_append]
  exact .list items

/-- **The lexemes of a name in a list of arguments are an item**, by induction on its segments. -/
theorem Itemised.word {segments : List Segment} (h : Itemised segments) :
    Word .item ((joined .dot (segments.map Segment.lexemes)).map Prod.fst) := by
  induction h with
  | @last segment arguments ih =>
    rw [List.map_singleton, joined, List.flatMap_nil, List.append_nil]
    by_cases plain : segment.arguments = []
    · rw [segment.lexemes_of_nil plain]
      exact .plain
    · rw [segment.lexemes_of_ne_nil plain, List.map_cons]
      refine .applied (word_arguments plain fun name mem => ?_)
      rw [name.lexemes_eq]
      exact ih name mem
  | @dotted segment rest plain items ih =>
    cases rest with
    | nil => cases items
    | cons second rest =>
      rw [List.map_cons, List.map_cons, joined_cons_cons, segment.lexemes_of_nil plain]
      exact .dotted ih

theorem Segment.Printable.word {segment : Segment} (h : segment.Printable)
    (applied : segment.arguments ≠ []) :
    Word .list ((list .less .greater (segment.arguments.map Name.lexemes)).map Prod.fst) := by
  refine word_arguments applied fun name mem => ?_
  rw [name.lexemes_eq]
  exact (h name mem).word

/-- Where no bracket stands, no list begins. -/
theorem afterList?_eq_none {rest : List Lexeme} (noList : first rest ≠ some .less) :
    afterList? (rest.map Prod.fst) = none := by
  cases rest with
  | nil => rfl
  | cons l rest =>
    rw [List.map_cons]
    unfold afterList?
    split
    next same => exact absurd (congrArg some (List.cons.inj same).1) noList
    next => rfl

namespace Parse

variable {rest : List Lexeme} {text : String}

/-! ## Identifiers and segments -/

section Segments

variable {name : Parse Name}

theorem yields_identifierOf_plain (noList : afterList? (rest.map Prod.fst) = none) :
    Yields (identifierOf name) [named text] rest fun found =>
      ∃ span, found = .plain text span := by
  refine .token yields_expect fun token isText => .look fun c lexemes => ?_
  have closed : c.opensArguments = false := by
    rw [Cursor.opensArguments_eq, Cursor.kinds_of_lexemes lexemes, List.nil_append, noList]
    rfl
  rw [if_neg (by simp [closed])]
  exact .pure ⟨token.span, by rw [isText]⟩

theorem yields_identifierOf_applied {l : List Lexeme} {good : List Name → Prop}
    (list : Word .list (l.map Prod.fst)) (taken : Yields (typeArguments name) l rest good) :
    Yields (identifierOf name) (named text :: l) rest fun found =>
      ∃ segment, found = .applied segment ∧ segment.text = text ∧ good segment.arguments := by
  refine .token yields_expect fun token isText => .look fun c lexemes => ?_
  have opens : c.opensArguments = true := by
    rw [Cursor.opensArguments_eq, Cursor.kinds_of_lexemes lexemes, List.map_append,
      afterList?_eq_some_iff.2 ⟨_, list, rfl⟩]
    rfl
  rw [if_pos opens]
  refine .still yields_freshId fun id _ => .whole taken fun arguments isGood => ?_
  exact .still (yields_spanFrom _) fun span _ => .pure ⟨_, rfl, isText, isGood⟩

/-- **A list of arguments is yielded** by an action that yields the names in it. -/
theorem yields_typeArguments {names : List Name} (written : ∀ a ∈ names, a.Printable)
    (each : ∀ a ∈ names, ∀ behind, first behind = some .comma ∨ first behind = some .greater →
      Yields name a.lexemes behind fun found => found.relabel .erase = a.relabel .erase) :
    Yields (typeArguments name) (list .less .greater (names.map Name.lexemes)) rest fun found =>
      found.map (Name.relabel .erase) = names.map (Name.relabel .erase) := by
  have items : Yields (separated .greater name) (joined .comma (names.map Name.lexemes))
      ([Kind.greater.lexeme] ++ rest) fun found =>
        found.map (Name.relabel .erase) = names.map (Name.relabel .erase) :=
    yields_separated nofun each (fun a mem => ⟨_, (written a mem).first_lexemes, nofun⟩) rfl
  refine .token yields_mark fun _ _ => .bind items fun found same => ?_
  exact .token yields_mark fun _ _ => .pure same

/-- **A segment is yielded** by an action that yields the names in its arguments. -/
theorem yields_segmentOf {segment : Segment} (written : segment.Printable)
    (noList : first rest ≠ some .less)
    (each : ∀ a ∈ segment.arguments, ∀ behind,
      first behind = some .comma ∨ first behind = some .greater →
      Yields name a.lexemes behind fun found => found.relabel .erase = a.relabel .erase) :
    Yields (segmentOf name) segment.lexemes rest fun found =>
      found.relabel .erase = segment.relabel .erase := by
  by_cases plain : segment.arguments = []
  · rw [segment.lexemes_of_nil plain]
    refine .whole (yields_identifierOf_plain (afterList?_eq_none noList)) fun found isPlain => ?_
    obtain ⟨span, rfl⟩ := isPlain
    refine .still yields_freshId fun id _ => .pure (Segment.erase_eq_iff.2 ⟨rfl, ?_⟩)
    rw [plain]
  · rw [segment.lexemes_of_ne_nil plain]
    have arguments : Yields (typeArguments name) _ rest _ :=
      yields_typeArguments (fun a mem => (written a mem).printable) each
    refine .whole (yields_identifierOf_applied (written.word plain) arguments)
      fun found isApplied => ?_
    obtain ⟨segment, rfl, text, names⟩ := isApplied
    exact .pure (Segment.erase_eq_iff.2 ⟨text, names⟩)

end Segments

/-! ## Names -/

/-- An argument of a segment is shorter than the segment. -/
theorem length_lt_of_mem_arguments {segment : Segment} {a : Name} (mem : a ∈ segment.arguments) :
    a.lexemes.length < segment.lexemes.length := by
  have within : a.lexemes.length ≤ (joined .comma (segment.arguments.map Name.lexemes)).length :=
    length_le_joined (List.mem_map_of_mem mem)
  rw [segment.lexemes_of_ne_nil (List.ne_nil_of_mem mem), list, between]
  simp only [List.length_cons, List.length_append]
  omega

/-- A segment of a name is no longer than the name. -/
theorem length_le_of_mem_segments {name : Name} {segment : Segment} (mem : segment ∈ name.segments) :
    segment.lexemes.length ≤ name.lexemes.length := by
  rw [name.lexemes_eq]
  exact length_le_joined (List.mem_map_of_mem mem)

/-- **A name is yielded** at every depth that is at least its length. -/
theorem yields_nameUpTo (n : Nat) {name : Name} (written : name.Printable)
    (noList : first rest ≠ some .less) (noPoint : first rest ≠ some .dot)
    (enough : name.lexemes.length ≤ n) :
    Yields (nameUpTo n) name.lexemes rest fun found =>
      found.relabel .erase = name.relabel .erase := by
  induction n generalizing name rest with
  | zero =>
    have some := List.length_pos_iff.2 (ne_nil_of_first written.first_lexemes)
    omega
  | succ n ih =>
    have segment : ∀ s ∈ name.segments, ∀ behind, first behind ≠ some .less →
        Yields (segmentOf (nameUpTo n)) s.lexemes behind fun found =>
          found.relabel .erase = s.relabel .erase := by
      intro s mem behind noList
      refine yields_segmentOf (written.segment s mem) noList fun a isArgument behind follows => ?_
      have shorter := length_lt_of_mem_arguments isArgument
      have short := length_le_of_mem_segments mem
      exact ih (written.segment s mem a isArgument).printable (ne_of_either follows (by decide))
        (ne_of_either follows (by decide)) (by omega)
    obtain ⟨segments, span⟩ := name
    cases segments with
    | nil => exact absurd rfl written.nonempty
    | cons s later =>
      have further : Yields (repeatWhile (fun c => c.kind = .dot)
          (do let _ ← advance; segmentOf (nameUpTo n))) (later.flatMap furtherLexemes) rest
          fun found =>
            found.map (Segment.relabel .erase) = later.map (Segment.relabel .erase) := by
        refine yields_repeatWhile (fun t mem behind follows => ?_) (fun t mem c behind lexemes => ?_)
          (fun t _ => List.cons_ne_nil _ _) fun c lexemes => ?_
        · exact .token yields_advance fun _ _ =>
            segment t (List.mem_cons_of_mem _ mem) _ (ne_less_of_follows noList follows)
        · exact decide_eq_true (Cursor.kind_of_lexemes lexemes rfl)
        · exact decide_eq_false (Cursor.ne_of_lexemes lexemes noPoint)
      rw [Name.lexemes_cons]
      refine .still yields_here fun start _ => ?_
      refine .bind (segment s (List.mem_cons_self ..) _ (first_further_ne_less noList))
        fun found same => ?_
      refine .whole further fun others areSame => .still (yields_spanFrom _) fun _ _ => .pure ?_
      rw [Name.erase_eq_iff, List.map_cons, List.map_cons, same, areSame]

/-- **A name is yielded from its lexemes**, where neither a list nor a point follows. -/
theorem yields_name {name : Name} (written : name.Printable) (noList : first rest ≠ some .less)
    (noPoint : first rest ≠ some .dot) :
    Yields Parse.name name.lexemes rest fun found =>
      found.relabel .erase = name.relabel .erase := by
  refine .look fun c lexemes => yields_nameUpTo _ written noList noPoint ?_
  exact Cursor.length_le_of_lexemes lexemes

/-- An argument is followed by neither a list nor a point. -/
theorem yields_argument {segment : Segment} (written : segment.Printable) :
    ∀ a ∈ segment.arguments, ∀ behind,
      first behind = some .comma ∨ first behind = some .greater →
      Yields Parse.name a.lexemes behind fun found => found.relabel .erase = a.relabel .erase := by
  intro a mem behind follows
  exact yields_name (written a mem).printable (ne_of_either follows (by decide))
    (ne_of_either follows (by decide))

theorem yields_segment {segment : Segment} (written : segment.Printable)
    (noList : first rest ≠ some .less) :
    Yields Parse.segment segment.lexemes rest fun found =>
      found.relabel .erase = segment.relabel .erase :=
  yields_segmentOf written noList (yields_argument written)

/-! ## Type parameters -/

/-- A type parameter is yielded by the action for it, with the comma behind it or without. -/
theorem yields_typeParameter {p : TypeParameter} (written : p.Printable) {mark : List Lexeme}
    (marked : first (mark ++ rest) = some .comma ∨ first (mark ++ rest) = some .greater)
    (separated : Yields (separator .greater) mark rest fun _ => True) :
    Yields typeParameter (p.lexemes ++ mark) rest fun found =>
      found.relabel .erase = p.relabel .erase := by
  obtain ⟨text, bound, span⟩ := p
  cases bound with
  | none =>
    refine .token yields_expect fun token isText => ?_
    have noColon : first (mark ++ rest) ≠ some .colon := ne_of_either marked (by decide)
    refine .still (yields_consume_false noColon) fun bounded notBounded => ?_
    rw [if_neg (by simp [notBounded])]
    simp only [pure_bind]
    exact .whole separated fun _ _ => .pure (TypeParameter.erase_eq_iff.2 ⟨isText, rfl⟩)
  | some bound =>
    have name : Yields (some <$> Parse.name) bound.lexemes (mark ++ rest) fun found =>
        found.map (Name.relabel .erase) = some (bound.relabel .erase) :=
      (yields_name (written bound rfl) (ne_of_either marked (by decide))
        (ne_of_either marked (by decide))).map fun found same => congrArg some same
    refine .token yields_expect fun token isText => ?_
    refine .token yields_consume_true fun bounded isBounded => ?_
    rw [if_pos isBounded]
    exact .bind name fun found same => .whole separated fun _ _ =>
      .pure (TypeParameter.erase_eq_iff.2 ⟨isText, same⟩)

/-- **The type parameters of a declaration are yielded** where no further list follows. -/
theorem yields_typeParameters {parameters : List TypeParameter}
    (written : ∀ p ∈ parameters, p.Printable) (noList : first rest ≠ some .less) :
    Yields typeParameters (parameterLexemes parameters) rest fun found =>
      found.map (TypeParameter.relabel .erase) = parameters.map (TypeParameter.relabel .erase) := by
  unfold parameterLexemes
  by_cases none : parameters = []
  · subst none
    refine .still (yields_consume_false noList) fun taken notTaken => ?_
    rw [if_neg (by simp [notTaken])]
    exact .pure rfl
  · rw [if_neg (by simpa using none)]
    have items : Yields (repeatUntil .greater typeParameter)
        (joined .comma (parameters.map TypeParameter.lexemes)) ([Kind.greater.lexeme] ++ rest)
        fun found => found.map (TypeParameter.relabel .erase) =
          parameters.map (TypeParameter.relabel .erase) := by
      refine yields_repeatUntil_joined (fun p mem behind => ?_) (fun p mem => ?_)
        (fun p _ => ⟨.identifier, rfl, by decide⟩) rfl
      · exact yields_typeParameter (written p mem) (.inl rfl) yields_separator_comma
      · rw [← List.append_nil (p.lexemes)]
        exact yields_typeParameter (written p mem) (.inr rfl) (yields_separator_closing nofun rfl)
    refine .token yields_consume_true fun taken isTaken => ?_
    rw [if_pos isTaken]
    exact .bind items fun found same => .token yields_mark fun _ _ => .pure same

end Parse

end FrontEnd

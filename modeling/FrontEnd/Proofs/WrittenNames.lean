import FrontEnd.Proofs.Grammar.YieldingName
import FrontEnd.Proofs.NothingDropped
import FrontEnd.Proofs.Program.DataWithin
import FrontEnd.Proofs.Program.Plain
import FrontEnd.Proofs.Token.Writing
import FrontEnd.Proofs.WellFormed

/-!
# Names read back

The written form of a name is read as the name again, wherever in a file the name is and however it
came there. Three facts meet here. The segments of a name of a file are identifiers of its text, as
parsing makes no words up. So the written form of the name has the lexemes of the name, and no two
characters in it join to another lexeme, not even two angle brackets that close one behind the other
(`Name.writes`). And the name is parsed from its lexemes, as it has the shape that parsed names
have.

**The law** (`File.name_reads_back`): every name of a file is what its written form is read as.
-/

namespace FrontEnd

open Token Lexeme

/-! ## The written form of a name -/

theorem segmentTexts_eq (segments : List Segment) :
    segmentTexts segments = segments.map Segment.written := by
  induction segments with
  | nil => rfl
  | cons first rest ih => rw [segmentTexts, ih, List.map_cons]

theorem nameTexts_eq (names : List Name) : nameTexts names = names.map Name.text := by
  induction names with
  | nil => rfl
  | cons first rest ih => rw [nameTexts, ih, List.map_cons]

/-- A name is written with points between its segments. -/
theorem Name.text_eq (name : Name) :
    name.text.toList = ['.'].intercalate (name.segments.map (·.written.toList)) := by
  obtain ⟨segments, span⟩ := name
  rw [Name.text, segmentTexts_eq, String.toList_intercalate, List.map_map]
  rfl

theorem Segment.written_of_nil {segment : Segment} (plain : segment.arguments = []) :
    segment.written = segment.text := by
  obtain ⟨id, text, arguments, span⟩ := segment
  cases plain
  rfl

/-- A segment is written with its arguments between angle brackets, and commas and blanks between
them. -/
theorem Segment.written_of_ne_nil {segment : Segment} (applied : segment.arguments ≠ []) :
    segment.written.toList = segment.text.toList ++
      '<' :: ([',', ' '].intercalate (segment.arguments.map (·.text.toList)) ++ ['>']) := by
  obtain ⟨id, text, arguments, span⟩ := segment
  cases arguments with
  | nil => exact absurd rfl applied
  | cons first rest =>
    rw [Segment.written, nameTexts_eq, ← List.map_cons]
    simp [String.toList_append, String.toList_intercalate, List.map_map, Function.comp_def]

/-- A segment writes its lexemes when its arguments do. -/
theorem Segment.writes {segment : Segment} (isWord : IsIdentifier segment.text)
    (arguments : ∀ a ∈ segment.arguments, Writes a.text.toList a.lexemes) :
    Writes segment.written.toList segment.lexemes := by
  by_cases plain : segment.arguments = []
  · rw [segment.written_of_nil plain, segment.lexemes_of_nil plain]
    exact .identifier isWord
  · rw [segment.written_of_ne_nil plain, segment.lexemes_of_ne_nil plain]
    exact .listed isWord (.joined separates_comma plain arguments)

/-- **A name writes its lexemes**, if it can be written and its segments are identifiers, by
induction on the name. -/
theorem Name.writes (name : Name) (written : name.Printable)
    (words : ∀ part ∈ name.parts, IsIdentifier part.text) :
    Writes name.text.toList name.lexemes := by
  rw [name.text_eq, name.lexemes_eq]
  refine .joined separates_point written.nonempty fun segment isSegment => ?_
  have inside : ∀ part ∈ segment.parts, part ∈ name.parts := by
    intro part mem
    rw [name.parts_eq, partsOfSegments_eq]
    exact List.mem_flatMap.2 ⟨segment, isSegment, mem⟩
  rw [segment.parts_eq, partsOfNames_eq] at inside
  obtain ⟨here, below⟩ := List.forall_mem_cons.1 inside
  refine Segment.writes (words _ here) fun a isArgument => ?_
  have := sizeOf_argument_lt isSegment isArgument
  refine a.writes (written.segment segment isSegment a isArgument).printable fun part mem => ?_
  exact words part (below part (List.mem_flatMap.2 ⟨a, isArgument, mem⟩))
termination_by name

/-! ## Reading a written form -/

/-- **Lexemes with the end behind them are entered as they are.** -/
theorem Cursor.lexemes_ofTokens_ended {tokens : List Token} {word : List Lexeme}
    (plain : Plain word) (lexemes : tokens.map Token.lexeme = word ++ [Lexeme.ending]) (id : Nat) :
    (ofTokens tokens id).left.map Token.lexeme = word ++ [Lexeme.ending] := by
  obtain ⟨front, back, rfl, rfl, isBack⟩ := List.map_eq_append_iff.1 lexemes
  obtain ⟨last, rfl, isLast⟩ := List.map_eq_singleton_iff.1 isBack
  have isEnd : last.kind = .eof := congrArg Prod.fst isLast
  rw [left_ofTokens_ended isEnd, uncommented_of_plain plain, lexemes]

/-- **A name is read back** from its written form, if it can be written and its segments are
identifiers: the form is scanned, and the action for names takes all of it and gives the name. -/
theorem Name.reads_back {name : Name} (written : name.Printable)
    (words : ∀ part ∈ name.parts, IsIdentifier part.text) (file : String) (id : Nat) :
    ∃ tokens again c, Token.ofText file name.text = .ok tokens ∧
      Parse.name (.ofTokens tokens id) = .ok again c ∧ c.kind = .eof ∧
      again.relabel .erase = name.relabel .erase := by
  have reads : ReadAs name.text.toList (name.lexemes ++ [Lexeme.ending]) := by
    have whole := (name.writes written words).reads [] [Lexeme.ending] nofun readAs_nil
    rwa [List.append_nil] at whole
  obtain ⟨tokens, scanned, lexemes⟩ := reads (.first file)
  have entered := Cursor.lexemes_ofTokens_ended name.plain_lexemes lexemes id
  obtain ⟨again, c, run, left, same⟩ :=
    (Parse.yields_name written (by decide) (by decide)).run (List.cons_ne_nil _ _) entered
  exact ⟨tokens, again, c, scanned, run, Cursor.kind_of_lexemes left rfl, same⟩

namespace File

variable {name text : String} {tokens : List Token} {firstId nextId : Nat} {file : File}

/-- **The segments of a name of a file are identifiers**: a word of a file is one of its text. -/
theorem isIdentifier_of_hasName (scanned : Token.ofText name text = .ok tokens)
    (parsed : File.ofTokens tokens firstId = .ok (file, nextId)) {n : Name}
    (has : file.HasName n) : ∀ part ∈ n.parts, IsIdentifier part.text := by
  intro part mem
  have inName : .word part.text ∈ n.data :=
    Multiset.mem_coe.2 (List.mem_map_of_mem mem)
  have inText : .word part.text ∈ Token.data tokens :=
    (kept_ofTokens scanned parsed).words _ (Multiset.mem_of_le has.data_le inName)
  obtain ⟨token, isToken, isDatum⟩ := List.mem_filterMap.1 inText
  obtain ⟨isIdentifier, same⟩ := Token.identifier_of_datum? isDatum
  exact same ▸ Token.isIdentifier_of_ofText scanned token isToken isIdentifier

/-- **A name of a file is read back from its written form.** -/
theorem name_reads_back (scanned : Token.ofText name text = .ok tokens)
    (parsed : File.ofTokens tokens firstId = .ok (file, nextId)) {n : Name}
    (has : file.HasName n) (other : String) (id : Nat) :
    ∃ own again c, Token.ofText other n.text = .ok own ∧
      Parse.name (.ofTokens own id) = .ok again c ∧ c.kind = .eof ∧
      again.relabel .erase = n.relabel .erase := by
  have shaped : file.Shaped True :=
    shaped_of_ofTokens (Token.scanned_of_ofText scanned) (fun _ _ _ => trivial) parsed
  exact Name.reads_back (shaped.name has) (isIdentifier_of_hasName scanned parsed has) other id

/-- A text with a name whose arguments have arguments, in an initial value. -/
def deepName : String :=
  "struct s \x7b t u = a.b<c<d>, f.g<h<i>>,>.j; \x7d"

/-- The text is scanned and parsed, and an argument in its name is read back. -/
theorem name_reads_back_deepName : ∃ tokens file nextId n, Token.ofText "m" deepName = .ok tokens ∧
    File.ofTokens tokens 0 = .ok (file, nextId) ∧ file.HasName n ∧ n.text = "f.g<h<i>>" ∧
    ∃ own again c, Token.ofText "n" n.text = .ok own ∧
      Parse.name (.ofTokens own 7) = .ok again c ∧ c.kind = .eof ∧
      again.relabel .erase = n.relabel .erase := by
  have reads : ((Token.ofText "m" deepName).toOption.any fun tokens =>
      (File.ofTokens tokens 0).toOption.any fun parsed => parsed.1.names.any fun outer =>
        outer.inside.any fun inner => inner.text = "f.g<h<i>>") = true := by
    decide +kernel
  obtain ⟨tokens, scanned, reads⟩ := exists_ok_of_any reads
  obtain ⟨⟨file, nextId⟩, parsed, reads⟩ := exists_ok_of_any reads
  obtain ⟨outer, isName, reads⟩ := List.any_eq_true.1 reads
  obtain ⟨n, isInside, isText⟩ := List.any_eq_true.1 reads
  have has : file.HasName n := ⟨outer, isName, isInside⟩
  exact ⟨tokens, file, nextId, n, scanned, parsed, has, of_decide_eq_true isText,
    name_reads_back scanned parsed has "n" 7⟩

end File

end FrontEnd

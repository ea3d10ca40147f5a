import FrontEnd.Grammar.Decl
import FrontEnd.Proofs.Grammar.YieldingStmt

/-!
# What parsing yields from the lexemes of files

Declarations are told apart by their first lexeme. Within a structure the fields are written before
the structures inside it, which keeps both orders, and the parser keeps no more than these.

**The law** (`Parse.yields_file`): from the lexemes of a file that can be written the file is
yielded in front of the end, up to numbers, positions and the name of the file.
-/

namespace FrontEnd

open Token Lexeme

namespace Parse

variable {rest : List Lexeme} {n : Nat}

/-! ## Types and their parameters -/

/-- What stands behind a type does not lengthen it. -/
structure EndsType (rest : List Lexeme) : Prop where
  noList : first rest ≠ some .less
  noPoint : first rest ≠ some .dot
  noArray : first rest ≠ some .openBracket

theorem endsType_of_first {k : Kind} (here : first rest = some k)
    (other : k ≠ .less ∧ k ≠ .dot ∧ k ≠ .openBracket) : EndsType rest :=
  ⟨ne_of_first here other.1, ne_of_first here other.2.1, ne_of_first here other.2.2⟩

/-- A type and the mark of an array are yielded one behind the other. -/
theorem yields_name_arrayMark {α : Type} {next : Name → Bool → Parse α} {type : Name}
    {isArray : Bool} {word : List Lexeme} {good : α → Prop} (written : type.Printable)
    (ends : EndsType (word ++ rest))
    (behind : ∀ found, found.relabel .erase = type.relabel .erase →
      Yields (next found isArray) word rest good) :
    Yields (Parse.name >>= fun found => Parse.arrayMark >>= next found)
      (type.lexemes ++ (arraySuffix isArray ++ word)) rest good := by
  have noList : first (arraySuffix isArray ++ word ++ rest) ≠ some .less := by
    cases isArray with
    | true => nofun
    | false => exact ends.noList
  have noPoint : first (arraySuffix isArray ++ word ++ rest) ≠ some .dot := by
    cases isArray with
    | true => nofun
    | false => exact ends.noPoint
  refine .bind (yields_name written noList noPoint) fun found same => ?_
  refine .bind (yields_arrayMark isArray ends.noArray) fun marked isMarked => ?_
  rw [isMarked]
  exact behind found same

/-- A parameter is yielded by the action for it, with the comma behind it or without. -/
theorem yields_parameter {p : Parameter} (written : p.type.Printable) {mark : List Lexeme}
    (separated : Yields (separator .closeParen) mark rest fun _ => True) :
    Yields parameter (p.lexemes ++ mark) rest fun found =>
      found.relabel .erase = p.relabel .erase := by
  obtain ⟨type, isArray, name, span⟩ := p
  rw [Parameter.lexemes, List.append_assoc, List.append_assoc]
  refine .still yields_here fun _ _ => yields_name_arrayMark written
    (endsType_of_first rfl ⟨nofun, nofun, nofun⟩) fun found same => ?_
  refine .token yields_expect fun token text => .whole separated fun _ _ => ?_
  refine .still (yields_spanFrom _) fun _ _ => .pure ?_
  simp only [Parameter.relabel, same, text, Relabel.span_erase]

theorem first_parameter {p : Parameter} (written : p.type.Printable) :
    first p.lexemes = some .identifier :=
  first_append written.first_lexemes

/-- **The parameters of a function are yielded.** -/
theorem yields_inputs {parameters : List Parameter}
    (written : ∀ p ∈ parameters, p.type.Printable) :
    Yields inputs (inputLexemes parameters) rest fun found =>
      found.map (Parameter.relabel .erase) = parameters.map (Parameter.relabel .erase) := by
  have items : Yields (repeatUntil .closeParen parameter)
      (joined .comma (parameters.map Parameter.lexemes)) ([Kind.closeParen.lexeme] ++ rest)
      fun found =>
        found.map (Parameter.relabel .erase) = parameters.map (Parameter.relabel .erase) := by
    refine yields_repeatUntil_joined (fun p mem behind => ?_) (fun p mem => ?_)
      (fun p mem => ⟨_, first_parameter (written p mem), by decide⟩) rfl
    · exact yields_parameter (written p mem) yields_separator_comma
    · rw [← List.append_nil p.lexemes]
      exact yields_parameter (written p mem) (yields_separator_closing nofun rfl)
  refine .token yields_mark fun _ _ => .bind items fun found same => ?_
  exact .token yields_mark fun _ _ => .pure same

theorem yields_output {output : ReturnType} (written : output.type.Printable)
    (ends : EndsType rest) :
    Yields Parse.output output.lexemes rest fun found =>
      found.relabel .erase = output.relabel .erase := by
  obtain ⟨type, isArray⟩ := output
  rw [ReturnType.lexemes, ← List.append_nil (arraySuffix isArray)]
  refine .token yields_mark fun _ _ => yields_name_arrayMark written ends fun found same => .pure ?_
  simp only [ReturnType.relabel, same]

/-! ## Structures -/

/-- **A field is yielded** with its first value, if it has one. -/
theorem yields_field {f : Field} (written : f.Printable) :
    Yields (field .standard) f.lexemes rest fun found =>
      found.relabel .erase = f.relabel .erase := by
  obtain ⟨isMutable, type, isArray, name, initial, span⟩ := f
  have noMark : first (type.lexemes ++ (arraySuffix isArray ++
      named name :: (initialLexemes initial ++ [Kind.semicolon.lexeme])) ++ rest) ≠
        some .mutWord := by
    rw [List.append_assoc, first_append written.type.first_lexemes]
    nofun
  refine .still yields_here fun _ _ => .bind (yields_optional isMutable noMark) fun _ marked => ?_
  refine yields_name_arrayMark written.type (endsType_of_first rfl ⟨nofun, nofun, nofun⟩)
    fun found same => .token yields_expect fun token text => ?_
  cases initial with
  | none =>
    refine .still (yields_consume_false nofun) fun taken notTaken => ?_
    rw [if_neg (by simp [notTaken]), pure_bind]
    refine .token yields_mark fun _ _ => .still (yields_spanFrom _) fun _ _ => .pure ?_
    simp only [Field.relabel, marked, same, text, Relabel.span_erase]
  | some value =>
    have initial : Yields (some <$> expr .standard .loosest) value.lexemes
        ([Kind.semicolon.lexeme] ++ rest) fun found =>
          found.map (Expr.relabel .erase) = (some value).map (Expr.relabel .erase) :=
      (yields_expr (written.initial value rfl) (stops_of_follow rfl rfl) _).map fun _ alike =>
        congrArg some alike
    refine .token yields_consume_true fun taken isTaken => ?_
    rw [if_pos isTaken]
    refine .bind initial fun _ alike => .token yields_mark fun _ _ => ?_
    refine .still (yields_spanFrom _) fun _ _ => .pure ?_
    simp only [Field.relabel, marked, same, text, alike, Relabel.span_erase]

theorem first_field {f : Field} (written : f.Printable) :
    first f.lexemes = some .mutWord ∨ first f.lexemes = some .identifier := by
  obtain ⟨isMutable, type, isArray, name, initial, span⟩ := f
  cases isMutable with
  | true => exact .inl rfl
  | false =>
    have typeFirst : Field.lexemes ⟨false, type, isArray, name, initial, span⟩ = type.lexemes ++
        (arraySuffix isArray ++ named name :: (initialLexemes initial ++
          [Kind.semicolon.lexeme])) := rfl
    rw [typeFirst]
    exact .inr (first_append written.type.first_lexemes)

/-- The lexemes of what stands in a structure. -/
def memberLexemes : Field ⊕ StructDecl → List Lexeme
  | .inl f => f.lexemes
  | .inr d => d.lexemes

/-- What stands in a structure with other labels. -/
def relabelMember (m : Relabel) : Field ⊕ StructDecl → Field ⊕ StructDecl :=
  Sum.map (Field.relabel m) (StructDecl.relabel m)

/-- **A structure is readable** when its lexemes yield it at every depth that is at least their
number. -/
structure ReadableStruct (d : StructDecl) : Prop where
  starts : first d.lexemes = some .closedWord ∨ first d.lexemes = some .structWord
  yields : ∀ n rest, d.lexemes.length ≤ n →
    Yields (structUpTo .standard n) d.lexemes rest fun found =>
      found.relabel .erase = d.relabel .erase

/-- What stands in a structure, where it is readable. -/
def ReadableMember : Field ⊕ StructDecl → Prop
  | .inl f => f.Printable
  | .inr d => ReadableStruct d

theorem first_member {member : Field ⊕ StructDecl} (h : ReadableMember member) :
    ∃ k, first (memberLexemes member) = some k ∧ k ≠ .closeCurly := by
  cases member with
  | inl f =>
    rcases first_field h with here | here
    · exact ⟨_, here, nofun⟩
    · exact ⟨_, here, nofun⟩
  | inr d =>
    rcases h.starts with here | here
    · exact ⟨_, here, nofun⟩
    · exact ⟨_, here, nofun⟩

theorem yields_structMember {member : Field ⊕ StructDecl} (h : ReadableMember member)
    (enough : (memberLexemes member).length ≤ n) :
    Yields (structMember .standard (structUpTo .standard n)) (memberLexemes member) rest
      fun found => relabelMember .erase found = relabelMember .erase member := by
  cases member with
  | inl f =>
    rcases first_field h with here | here
    · exact .onKind (first_append here) ((yields_field h).map fun _ same => congrArg Sum.inl same)
    · exact .onKind (first_append here) ((yields_field h).map fun _ same => congrArg Sum.inl same)
  | inr d =>
    have inner : Yields (Sum.inr <$> structUpTo .standard n) d.lexemes rest fun found =>
        relabelMember .erase found = relabelMember .erase (.inr d) :=
      (h.yields n rest enough).map fun _ same => congrArg Sum.inr same
    rcases h.starts with here | here
    · exact .onKind (first_append here) inner
    · exact .onKind (first_append here) inner

theorem yields_bases {names : List Name} (written : ∀ a ∈ names, a.Printable)
    (opens : first rest = some .openCurly) :
    Yields bases (baseLexemes names) rest fun found =>
      found.map (Name.relabel .erase) = names.map (Name.relabel .erase) := by
  unfold baseLexemes
  by_cases none : names = []
  · subst none
    refine .still (yields_consume_false (by simp [opens])) fun taken notTaken => ?_
    rw [if_neg (by simp [notTaken])]
    exact .pure rfl
  · rw [if_neg (by simpa using none)]
    refine .token yields_consume_true fun taken isTaken => ?_
    rw [if_pos isTaken]
    refine yields_separated nofun (fun a mem behind follows => ?_)
      (fun a mem => ⟨_, (written a mem).first_lexemes, nofun⟩) opens
    exact yields_name (written a mem) (ne_of_either follows (by decide))
      (ne_of_either follows (by decide))

/-! What stands in a structure is read in one row and kept in two. -/

theorem fields_relabelMember (m : Relabel) (members : List (Field ⊕ StructDecl)) :
    (members.map (relabelMember m)).filterMap Sum.getLeft? =
      (members.filterMap Sum.getLeft?).map (Field.relabel m) := by
  rw [List.filterMap_map, List.map_filterMap]
  congr 1
  funext member
  cases member <;> rfl

theorem inner_relabelMember (m : Relabel) (members : List (Field ⊕ StructDecl)) :
    (members.map (relabelMember m)).filterMap Sum.getRight? =
      (members.filterMap Sum.getRight?).map (StructDecl.relabel m) := by
  rw [List.filterMap_map, List.map_filterMap]
  congr 1
  funext member
  cases member <;> rfl

/-- **What stands in a structure** as it is written, the fields first. -/
def members (d : StructDecl) : List (Field ⊕ StructDecl) :=
  d.fields.map .inl ++ d.inner.map .inr

theorem fields_members (d : StructDecl) : (members d).filterMap Sum.getLeft? = d.fields := by
  rw [members, List.filterMap_append, List.filterMap_map, List.filterMap_map]
  simp [Function.comp_def]

theorem inner_members (d : StructDecl) : (members d).filterMap Sum.getRight? = d.inner := by
  rw [members, List.filterMap_append, List.filterMap_map, List.filterMap_map]
  simp [Function.comp_def]

theorem flatMap_members (d : StructDecl) :
    (members d).flatMap memberLexemes =
      d.fields.flatMap Field.lexemes ++ structLexemes d.inner := by
  rw [members, List.flatMap_append, List.flatMap_map, List.flatMap_map, structLexemes_eq]
  rfl

/-- The members of a structure that can be written are readable, if the structures inside it are. -/
theorem readableMember_of_mem {d : StructDecl} (fields : ∀ f ∈ d.fields, f.Printable)
    (inner : ∀ e ∈ d.inner, ReadableStruct e) : ∀ member ∈ members d, ReadableMember member := by
  intro member mem
  rcases List.mem_append.1 mem with mem | mem
  · obtain ⟨f, isField, rfl⟩ := List.mem_map.1 mem
    exact fields f isField
  · obtain ⟨e, isInner, rfl⟩ := List.mem_map.1 mem
    exact inner e isInner

/-- A member of a structure is shorter than the structure. -/
theorem length_member_lt {d : StructDecl} {member : Field ⊕ StructDecl} (mem : member ∈ members d) :
    (memberLexemes member).length < d.lexemes.length := by
  obtain ⟨front, back, split⟩ := List.append_of_mem mem
  have within : (memberLexemes member).length ≤ ((members d).flatMap memberLexemes).length := by
    rw [split, List.flatMap_append, List.flatMap_cons]
    simp only [List.length_append]
    omega
  rw [flatMap_members] at within
  obtain ⟨isClosed, name, parameters, bases, fields, inner, span⟩ := d
  rw [StructDecl.lexemes]
  simp only [between, List.length_append, List.length_cons] at within ⊢
  omega

/-- The types that a structure builds on open no list of arguments. -/
theorem first_bases_ne_less {bases : List Name} (opens : first rest = some .openCurly) :
    first (baseLexemes bases ++ rest) ≠ some .less := by
  unfold baseLexemes
  split
  · rw [List.nil_append, opens]
    nofun
  · nofun

/-- **A structure is yielded** where its members are readable one depth below. -/
theorem yields_structUpTo {d : StructDecl} (parameters : ∀ p ∈ d.parameters, p.Printable)
    (baseNames : ∀ a ∈ d.bases, a.Printable)
    (readable : ∀ member ∈ members d, ReadableMember member)
    (enough : ∀ member ∈ members d, (memberLexemes member).length ≤ n) :
    Yields (structUpTo .standard (n + 1)) d.lexemes rest fun found =>
      found.relabel .erase = d.relabel .erase := by
  have row : Yields (repeatUntil .closeCurly (structMember .standard (structUpTo .standard n)))
      ((members d).flatMap memberLexemes) ([Kind.closeCurly.lexeme] ++ rest) fun found =>
        found.map (relabelMember .erase) = (members d).map (relabelMember .erase) :=
    yields_repeatUntil
      (fun member mem _ => yields_structMember (readable member mem) (enough member mem))
      (fun member mem => first_member (readable member mem)) rfl
  have fieldsOf := fields_relabelMember .erase (members d)
  have innerOf := inner_relabelMember .erase (members d)
  rw [fields_members] at fieldsOf
  rw [inner_members] at innerOf
  rw [flatMap_members] at row
  obtain ⟨isClosed, name, params, baseList, fields, inner, span⟩ := d
  rw [StructDecl.lexemes]
  refine .still yields_here fun _ _ => ?_
  refine .bind (yields_optional isClosed (ne_of_first rfl (by decide))) fun _ closed => ?_
  refine .token yields_mark fun _ _ => .token yields_expect fun token text => ?_
  refine .bind (yields_typeParameters parameters ?_) fun _ sameParameters => ?_
  · rw [List.append_assoc]
    exact first_bases_ne_less rfl
  refine .bind (yields_bases baseNames rfl) fun _ sameBases => .token yields_mark fun _ _ => ?_
  refine .bind row fun found same => .token yields_mark fun _ _ => ?_
  refine .still (yields_spanFrom _) fun _ _ => .pure ?_
  have sameFields := fields_relabelMember .erase found
  have sameInner := inner_relabelMember .erase found
  rw [same, fieldsOf] at sameFields
  rw [same, innerOf] at sameInner
  simp only [StructDecl.relabel, relabelStructs_eq, closed, text, sameParameters, sameBases,
    sameFields, sameInner, Relabel.span_erase]

/-- **Structures that can be written are readable**, by induction on what can be written. -/
theorem readableStruct_of_printable {d : StructDecl} (written : d.Printable) :
    ReadableStruct d := by
  induction written with
  | @mk d parameters baseNames fields _ ih =>
    have readable := readableMember_of_mem fields ih
    refine ⟨?_, fun n rest enough => ?_⟩
    · obtain ⟨isClosed, name, parameters, bases, fields, inner, span⟩ := d
      cases isClosed with
      | true => exact .inl rfl
      | false => exact .inr rfl
    · cases n with
      | zero =>
        obtain ⟨isClosed, name, parameters, bases, fields, inner, span⟩ := d
        simp [StructDecl.lexemes] at enough
      | succ n =>
        refine yields_structUpTo parameters baseNames readable fun member mem => ?_
        have shorter := length_member_lt mem
        omega

theorem yields_struct {d : StructDecl} (written : d.Printable) :
    Yields (struct .standard) d.lexemes rest fun found =>
      found.relabel .erase = d.relabel .erase := by
  refine .look fun c lexemes => (readableStruct_of_printable written).yields _ rest ?_
  exact Cursor.length_le_of_lexemes lexemes

/-! ## Functions, interfaces, synonyms and enumerations -/

/-- **A function is yielded.** -/
theorem yields_function {d : FnDecl} (written : d.Printable) :
    Yields (function .standard) d.lexemes rest fun found =>
      found.relabel .erase = d.relabel .erase := by
  obtain ⟨isMutable, parameters, name, inputs, output, body, span⟩ := d
  have noList : first (name.lexemes ++ (inputLexemes inputs ++ (output.lexemes ++
      blockLexemes body)) ++ rest) ≠ some .less := by
    rw [List.append_assoc, first_append written.name.first_lexemes]
    nofun
  refine .still yields_here fun _ _ => .bind (yields_optional isMutable nofun) fun _ marked => ?_
  refine .token yields_mark fun _ _ => ?_
  refine .bind (yields_typeParameters written.parameters noList) fun _ sameParameters => ?_
  refine .bind (yields_name written.name nofun nofun) fun _ sameName => ?_
  refine .bind (yields_inputs written.signature.inputs) fun _ sameInputs => ?_
  refine .bind (yields_output written.signature.output
    (endsType_of_first rfl ⟨nofun, nofun, nofun⟩)) fun _ sameOutput => ?_
  refine .whole (yields_body written.body) fun found sameBody => ?_
  refine .still (yields_spanFrom _) fun _ _ => .pure ?_
  have bodies : found.map (Stmt.relabel .erase) = body.map (Stmt.relabel .erase) := sameBody
  simp only [FnDecl.relabel, marked, sameParameters, sameName, sameInputs, sameOutput, bodies,
    Relabel.span_erase]

theorem yields_method {d : Method} (written : SignaturePrintable d.inputs d.output) :
    Yields method d.lexemes rest fun found => found.relabel .erase = d.relabel .erase := by
  obtain ⟨isMutable, name, inputs, output, span⟩ := d
  refine .still yields_here fun _ _ => .bind (yields_optional isMutable nofun) fun _ marked => ?_
  refine .token yields_mark fun _ _ => .token yields_expect fun token text => ?_
  refine .bind (yields_inputs written.inputs) fun _ sameInputs => ?_
  refine .bind (yields_output written.output (endsType_of_first rfl ⟨nofun, nofun, nofun⟩))
    fun _ sameOutput => .token yields_mark fun _ _ => ?_
  refine .still (yields_spanFrom _) fun _ _ => .pure ?_
  simp only [Method.relabel, marked, text, sameInputs, sameOutput, Relabel.span_erase]

theorem first_method (d : Method) : ∃ k, first d.lexemes = some k ∧ k ≠ .closeCurly := by
  obtain ⟨isMutable, name, inputs, output, span⟩ := d
  cases isMutable with
  | true => exact ⟨.mutWord, rfl, by decide⟩
  | false => exact ⟨.fnWord, rfl, by decide⟩

/-- **An interface is yielded.** -/
theorem yields_interface {d : InterfaceDecl} (written : d.Printable) :
    Yields interface d.lexemes rest fun found => found.relabel .erase = d.relabel .erase := by
  obtain ⟨name, parameters, methods, span⟩ := d
  have row : Yields (repeatUntil .closeCurly method) (methods.flatMap Method.lexemes)
      ([Kind.closeCurly.lexeme] ++ rest) fun found =>
        found.map (Method.relabel .erase) = methods.map (Method.relabel .erase) :=
    yields_repeatUntil (fun d mem _ => yields_method (written.methods d mem))
      (fun d _ => first_method d) rfl
  refine .token yields_advance fun _ _ => .token yields_expect fun token text => ?_
  refine .bind (yields_typeParameters written.parameters nofun) fun _ sameParameters => ?_
  refine .token yields_mark fun _ _ => .bind row fun _ sameMethods => ?_
  refine .token yields_mark fun _ _ => .still (yields_spanFrom _) fun _ _ => .pure ?_
  simp only [InterfaceDecl.relabel, text, sameParameters, sameMethods, Relabel.span_erase]

theorem yields_synonym {d : SynonymDecl} (written : d.type.Printable) :
    Yields synonym d.lexemes rest fun found => found.relabel .erase = d.relabel .erase := by
  obtain ⟨name, type, span⟩ := d
  refine .token yields_advance fun _ _ => .token yields_expect fun token text => ?_
  refine .token yields_mark fun _ _ => ?_
  refine .bind (yields_name written nofun nofun) fun _ sameType => .token yields_mark fun _ _ => ?_
  refine .still (yields_spanFrom _) fun _ _ => .pure ?_
  simp only [SynonymDecl.relabel, text, sameType, Relabel.span_erase]

theorem yields_enumValue {text : String} :
    Yields enumValue [named text] rest fun found => found = text :=
  .token yields_expect fun _ isText => .pure isText

theorem yields_enum {d : EnumDecl} :
    Yields enum d.lexemes rest fun found => found.relabel .erase = d.relabel .erase := by
  obtain ⟨name, values, span⟩ := d
  have row : Yields (separated .closeCurly enumValue)
      (joined .comma (values.map fun value => [named value])) ([Kind.closeCurly.lexeme] ++ rest)
      fun found => found.map id = values.map id :=
    yields_separated nofun (fun _ _ _ _ => yields_enumValue) (fun _ _ => ⟨_, rfl, nofun⟩) rfl
  refine .token yields_advance fun _ _ => .token yields_expect fun token text => ?_
  refine .token yields_mark fun _ _ => .bind row fun found same => .token yields_mark fun _ _ => ?_
  refine .still (yields_spanFrom _) fun _ _ => .pure ?_
  rw [List.map_id, List.map_id] at same
  simp only [EnumDecl.relabel, text, same, Relabel.span_erase]

/-! ## Declarations -/

/-- The form of a declaration. -/
def formOf : Decl → DeclForm
  | .struct _ => .struct
  | .function _ => .function
  | .interface _ => .interface
  | .synonym _ => .synonym
  | .enum _ => .enum

/-- **A declaration begins with a word that tells its form.** -/
theorem first_decl (d : Decl) :
    ∃ k, first d.lexemes = some k ∧ Grammar.standard.decl k = some (formOf d) := by
  cases d with
  | struct d =>
    obtain ⟨isClosed, name, parameters, bases, fields, inner, span⟩ := d
    cases isClosed with
    | true => exact ⟨.closedWord, rfl, rfl⟩
    | false => exact ⟨.structWord, rfl, rfl⟩
  | function d =>
    obtain ⟨isMutable, parameters, name, inputs, output, body, span⟩ := d
    cases isMutable with
    | true => exact ⟨.mutWord, rfl, rfl⟩
    | false => exact ⟨.fnWord, rfl, rfl⟩
  | interface d => exact ⟨.interfaceWord, rfl, rfl⟩
  | synonym d => exact ⟨.aliasWord, rfl, rfl⟩
  | enum d => exact ⟨.enumWord, rfl, rfl⟩

/-- **A declaration is yielded.** -/
theorem yields_decl {d : Decl} (written : d.Printable) :
    Yields (decl .standard) d.lexemes rest fun found =>
      found.relabel .erase = d.relabel .erase := by
  obtain ⟨k, here, form⟩ := first_decl d
  refine .onKind (first_append here) ?_
  rw [form]
  cases d with
  | struct d => exact (yields_struct written).map fun _ same => congrArg Decl.struct same
  | function d => exact (yields_function written).map fun _ same => congrArg Decl.function same
  | interface d => exact (yields_interface written).map fun _ same => congrArg Decl.interface same
  | synonym d => exact (yields_synonym written).map fun _ same => congrArg Decl.synonym same
  | enum d => exact yields_enum.map fun _ same => congrArg Decl.enum same

/-! ## Imports and exports -/

/-- The lexemes of a path, its last text apart. -/
theorem lexemes_concat {front : List String} (plain : ∀ text ∈ front, text ≠ "*") (last : String)
    (span : Span) : ModulePath.lexemes ⟨front ++ [last], span⟩ =
      front.flatMap (fun text => [named text, Kind.dot.lexeme]) ++ [pathLexeme last] := by
  rw [ModulePath.lexemes, List.map_append, List.map_singleton, joined_concat, List.flatMap_map]
  have each : ∀ text ∈ front, [pathLexeme text] ++ [Kind.dot.lexeme] =
      [named text, Kind.dot.lexeme] := by
    intro text mem
    rw [pathLexeme, if_neg (plain text mem)]
    rfl
  rw [List.flatMap_def, List.flatMap_def, List.map_congr_left each]

theorem first_pathLexeme (text : String) :
    (pathLexeme text).1 = .star ∨ (pathLexeme text).1 = .identifier := by
  unfold pathLexeme
  split
  · exact .inl rfl
  · exact .inr rfl

/-- **The texts of a path are yielded** where no point follows. -/
theorem yields_moduleTexts {path : ModulePath} (written : path.Printable)
    (noPoint : first rest ≠ some .dot) :
    Yields moduleTexts path.lexemes rest fun found => found = path.texts := by
  obtain ⟨texts, span⟩ := path
  obtain ⟨front, last, split, plain⟩ := written
  have split : texts = front ++ [last] := split
  subst split
  rw [lexemes_concat plain]
  have row : Yields (repeatWhile (fun c => c.kind = .identifier && c.peek 1 = .dot)
      (do let token ← advance; let _ ← advance; return token.text))
      (front.flatMap fun text => [named text, Kind.dot.lexeme]) ([pathLexeme last] ++ rest)
      fun found => found.map id = front.map id := by
    refine yields_repeatWhile (fun text mem behind _ => ?_) (fun text mem c behind lexemes => ?_)
      (fun text _ => List.cons_ne_nil _ _) fun c lexemes => ?_
    · refine .token yields_advance fun token isText => .token yields_advance fun _ _ => .pure ?_
      exact congrArg Prod.snd isText
    · have isName : c.kind = .identifier := Cursor.kind_of_lexemes lexemes rfl
      simp [isName, Cursor.peek_of_lexemes lexemes, Kind.lexeme]
    · have ahead : c.peek 1 ≠ .dot := by
        rw [Cursor.peek_of_lexemes lexemes]
        cases rest with
        | nil => nofun
        | cons l rest => exact fun isDot => noPoint (congrArg some isDot)
      simp [ahead]
  refine .bind row fun found same => ?_
  rw [List.map_id, List.map_id] at same
  by_cases isStar : last = "*"
  · subst isStar
    refine .token yields_consume_true fun taken isTaken => ?_
    rw [if_pos isTaken, same]
    exact .pure rfl
  · have lexeme : pathLexeme last = named last := if_neg isStar
    rw [lexeme]
    refine .still (yields_consume_false nofun) fun taken notTaken => ?_
    rw [if_neg (by simp [notTaken])]
    refine .token yields_expect fun token isText => .pure ?_
    rw [same, isText]

theorem first_path {path : ModulePath} (written : path.Printable) :
    first path.lexemes = some .star ∨ first path.lexemes = some .identifier := by
  obtain ⟨texts, span⟩ := path
  obtain ⟨front, last, split, plain⟩ := written
  have split : texts = front ++ [last] := split
  subst split
  rw [lexemes_concat plain]
  cases front with
  | nil =>
    rcases first_pathLexeme last with here | here
    · exact .inl (congrArg some here)
    · exact .inr (congrArg some here)
  | cons text front => exact .inr rfl

/-- **An import is yielded.** -/
theorem yields_importPath {path : ModulePath} (written : path.Printable) :
    Yields importPath (importLexemes path) rest fun found =>
      found.relabel .erase = path.relabel .erase := by
  refine .token yields_advance fun _ _ => .bind (yields_moduleTexts written nofun) fun _ same => ?_
  refine .token yields_mark fun _ _ => .still (yields_spanFrom _) fun _ _ => .pure ?_
  simp only [ModulePath.relabel, same, Relabel.span_erase]

theorem yields_exportPath {path : ModulePath} (written : path.Printable)
    (noPoint : first rest ≠ some .dot) :
    Yields exportPath path.lexemes rest fun found =>
      found.relabel .erase = path.relabel .erase := by
  refine .still yields_here fun _ _ => .whole (yields_moduleTexts written noPoint) fun _ same => ?_
  refine .still (yields_spanFrom _) fun _ _ => .pure ?_
  simp only [ModulePath.relabel, same, Relabel.span_erase]

/-- **A block of exports is yielded.** -/
theorem yields_exports {paths : List ModulePath} (written : ∀ path ∈ paths, path.Printable) :
    Yields exports
      (Kind.exportWord.lexeme :: list .openCurly .closeCurly (paths.map ModulePath.lexemes)) rest
      fun found => found.map (ModulePath.relabel .erase) = paths.map (ModulePath.relabel .erase) := by
  have row : Yields (separated .closeCurly exportPath) (joined .comma (paths.map ModulePath.lexemes))
      ([Kind.closeCurly.lexeme] ++ rest) fun found =>
        found.map (ModulePath.relabel .erase) = paths.map (ModulePath.relabel .erase) := by
    refine yields_separated nofun (fun path mem behind follows => ?_) (fun path mem => ?_) rfl
    · exact yields_exportPath (written path mem) (ne_of_either follows (by decide))
    · rcases first_path (written path mem) with here | here
      · exact ⟨_, here, nofun⟩
      · exact ⟨_, here, nofun⟩
  refine .token yields_advance fun _ _ => .token yields_mark fun _ _ => ?_
  exact .bind row fun _ same => .token yields_mark fun _ _ => .pure same

/-! ## Files -/

/-- What one step of reading a file reads. -/
inductive Piece where
  | brings (path : ModulePath)
  | offers (paths : List ModulePath)
  | declares (d : Decl)

namespace Piece

/-- The lexemes of a piece. -/
def lexemes : Piece → List Lexeme
  | brings path => importLexemes path
  | offers paths =>
    Kind.exportWord.lexeme :: list .openCurly .closeCurly (paths.map ModulePath.lexemes)
  | declares d => d.lexemes

/-- A piece that can be written. -/
def Printable : Piece → Prop
  | brings path => path.Printable
  | offers paths => ∀ path ∈ paths, path.Printable
  | declares d => d.Printable

/-- The path that a piece imports. -/
def import? : Piece → Option ModulePath
  | brings path => some path
  | offers _ | declares _ => none

/-- The paths that a piece exports. -/
def exports? : Piece → Option (List ModulePath)
  | offers paths => some paths
  | brings _ | declares _ => none

/-- What a piece declares. -/
def declaration? : Piece → Option Decl
  | declares d => some d
  | brings _ | offers _ => none

/-- **The pieces of a file**, as they are written. -/
def ofFile (file : File) : List Piece :=
  file.imports.map brings ++ ((if file.exports.isEmpty then [] else [offers file.exports]) ++
    file.declarations.map declares)

variable (file : File)

theorem flatMap_ofFile : (ofFile file).flatMap lexemes = file.lexemes := by
  rw [ofFile, List.flatMap_append, List.flatMap_append, List.flatMap_map, List.flatMap_map,
    File.lexemes, exportLexemes]
  congr 2
  split
  · rfl
  · exact List.append_nil _

theorem imports_ofFile : (ofFile file).filterMap import? = file.imports := by
  unfold ofFile
  split <;> simp [List.filterMap_map, Function.comp_def, import?]

theorem declarations_ofFile : (ofFile file).filterMap declaration? = file.declarations := by
  unfold ofFile
  split <;> simp [List.filterMap_map, List.filterMap_cons, Function.comp_def, declaration?]

theorem exports_ofFile : (ofFile file).filterMap exports? =
    if file.exports.isEmpty then [] else [file.exports] := by
  have imports : (file.imports.map brings).filterMap exports? = [] := by simp [exports?]
  have declarations : (file.declarations.map declares).filterMap exports? = [] := by simp [exports?]
  rw [ofFile, List.filterMap_append, List.filterMap_append, imports, declarations, List.nil_append,
    List.append_nil]
  split <;> rfl

/-- No block of exports stands in front of one. -/
theorem exports_before {file : File} {done later : List Piece} {paths : List ModulePath}
    (split : ofFile file = done ++ offers paths :: later) : done.filterMap exports? = [] := by
  have blocks := exports_ofFile file
  rw [split, List.filterMap_append, List.filterMap_cons] at blocks
  change done.filterMap exports? ++ paths :: later.filterMap exports? = _ at blocks
  split at blocks
  · cases (List.append_eq_nil_iff.1 blocks).2
  · rcases List.append_eq_singleton_iff.1 blocks with ⟨isNil, -⟩ | ⟨-, isNil⟩
    · exact isNil
    · cases isNil

theorem printable_of_mem {file : File} (written : file.Printable) :
    ∀ piece ∈ ofFile file, piece.Printable := by
  intro piece mem
  rcases List.mem_append.1 mem with mem | mem
  · obtain ⟨path, isImport, rfl⟩ := List.mem_map.1 mem
    exact written.imports path isImport
  rcases List.mem_append.1 mem with mem | mem
  · split at mem
    · cases mem
    · cases List.mem_singleton.1 mem
      exact written.exports
  · obtain ⟨d, isDeclared, rfl⟩ := List.mem_map.1 mem
    exact written.declarations d isDeclared

/-- A piece begins with a word of its own, which is not the end. -/
theorem first_lexemes (piece : Piece) : ∃ k, first piece.lexemes = some k ∧ k ≠ .eof := by
  cases piece with
  | brings path => exact ⟨.importWord, rfl, nofun⟩
  | offers paths => exact ⟨.exportWord, rfl, nofun⟩
  | declares d =>
    obtain ⟨k, here, form⟩ := first_decl d
    refine ⟨k, here, ?_⟩
    rintro rfl
    cases form

end Piece

/-- **What has been read of a file** is what its first pieces say. -/
structure HasRead (done : List Piece) (contents : Contents) : Prop where
  imports : contents.imports.map (ModulePath.relabel .erase) =
    (done.filterMap Piece.import?).map (ModulePath.relabel .erase)
  declarations : contents.declarations.map (Decl.relabel .erase) =
    (done.filterMap Piece.declaration?).map (Decl.relabel .erase)
  exports : contents.exports.map (List.map (ModulePath.relabel .erase)) =
    (done.filterMap Piece.exports?).head?.map (List.map (ModulePath.relabel .erase))

/-- A file that is made of what has been read is the file of the pieces. -/
theorem HasRead.relabel_eq {f : File} {contents : Contents}
    (read : HasRead (Piece.ofFile f) contents) (name : String) :
    File.relabel .erase
        ⟨name, contents.imports, contents.declarations, contents.exports.getD []⟩ =
      f.relabel .erase := by
  obtain ⟨imports, declarations, exports⟩ := read
  rw [Piece.imports_ofFile] at imports
  rw [Piece.declarations_ofFile] at declarations
  rw [Piece.exports_ofFile] at exports
  have exported : (contents.exports.getD []).map (ModulePath.relabel .erase) =
      f.exports.map (ModulePath.relabel .erase) := by
    split at exports
    next noExports =>
      have noBlock : contents.exports = none := by simpa using exports
      rw [noBlock, List.isEmpty_iff.1 noExports]
      rfl
    next =>
      obtain ⟨paths, isBlock, same⟩ := Option.map_eq_some_iff.1 exports
      rw [isBlock]
      exact same
  simp only [File.relabel, imports, declarations, exported]
  rfl

/-- **One piece more is read** where no block of exports comes behind another. -/
theorem yields_item {done : List Piece} {piece : Piece} {contents : Contents}
    (written : piece.Printable) (read : HasRead done contents)
    (once : ∀ paths, piece = .offers paths → done.filterMap Piece.exports? = []) :
    Yields (item .standard contents) piece.lexemes rest (HasRead (done ++ [piece])) := by
  obtain ⟨imports, declarations, exports⟩ := read
  cases piece with
  | brings path =>
    refine .onKind rfl (.whole (yields_importPath written) fun found same => .pure ⟨?_, ?_, ?_⟩)
    · simpa [Piece.import?, same] using imports
    · simpa [List.filterMap_cons, Piece.declaration?] using declarations
    · simpa [List.filterMap_cons, Piece.exports?] using exports
  | offers paths =>
    have noneYet : contents.exports = none := by
      simpa [once paths rfl] using exports
    refine .onKind rfl ?_
    simp only [noneYet]
    refine .whole (yields_exports written) fun found same => .pure ⟨?_, ?_, ?_⟩
    · simpa [List.filterMap_cons, Piece.import?] using imports
    · simpa [List.filterMap_cons, Piece.declaration?] using declarations
    · simp [Piece.exports?, once paths rfl, same]
  | declares d =>
    obtain ⟨k, here, form⟩ := first_decl d
    have step : Yields (do return { contents with
        declarations := contents.declarations ++ [← decl .standard] }) d.lexemes rest
        (HasRead (done ++ [.declares d])) := by
      refine .whole (yields_decl written) fun found same => .pure ⟨?_, ?_, ?_⟩
      · simpa [List.filterMap_cons, Piece.import?] using imports
      · simpa [Piece.declaration?, same] using declarations
      · simpa [List.filterMap_cons, Piece.exports?] using exports
    refine .onKind (first_append here) ?_
    split
    · cases form
    · cases form
    · exact step

/-- **A file is yielded from its lexemes** in front of the end. -/
theorem yields_file {f : File} (written : f.Printable) (isEnd : first rest = some .eof) :
    Yields (file .standard) f.lexemes rest fun found =>
      found.relabel .erase = f.relabel .erase := by
  have row : Yields (growWhile (fun c => c.kind ≠ .eof) (item .standard) ⟨[], [], none⟩)
      ((Piece.ofFile f).flatMap Piece.lexemes) rest (HasRead (Piece.ofFile f)) := by
    refine yields_growWhile ⟨rfl, rfl, rfl⟩ (fun done piece later contents behind split read _ => ?_)
      (fun piece _ c behind lexemes => ?_) (fun piece _ => ?_) fun c lexemes => ?_
    · have mem : piece ∈ Piece.ofFile f := by simp [split]
      refine yields_item (Piece.printable_of_mem written piece mem) read fun paths isBlock => ?_
      exact Piece.exports_before (isBlock ▸ split)
    · obtain ⟨k, here, notEnd⟩ := piece.first_lexemes
      simpa [Cursor.kind_of_lexemes lexemes (first_append here)] using notEnd
    · obtain ⟨k, here, -⟩ := piece.first_lexemes
      exact ne_nil_of_first here
    · simp [Cursor.kind_of_lexemes lexemes isEnd]
  rw [← Piece.flatMap_ofFile]
  exact .whole row fun contents read => .look fun c _ => .pure (read.relabel_eq _)

end Parse

end FrontEnd

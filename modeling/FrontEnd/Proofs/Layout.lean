import FrontEnd.Proofs.Grammar.CarryingFile
import FrontEnd.Proofs.Grammar.Placing
import FrontEnd.Proofs.Program.Lexemes
import FrontEnd.Proofs.Scope.Relabelled
import FrontEnd.Proofs.Symbol.Repositioned

/-!
# Layout and comments do not matter

Two texts whose tokens are the same up to their places, comments left out, are compiled with the same
outcome up to positions (`compile_layout`). Each stage is followed through both runs. The parser
commutes with erasing positions. Registration compares positions, but only those at which the claims
of one file are made, and these are different from one another in both texts; so moving the one to
the other tells them apart and is seen by no comparison. Resolution and the scope check pass
positions on to diagnostics and do nothing else with them.

Two outcomes agree (`Agree`) when both are results that are alike or both are errors that are alike.
The stages agree one after another (`Agree.bind`).
-/

namespace FrontEnd

/-! ## Outcomes that agree -/

/-- **Outcomes that agree**: results that are alike, or errors that are alike. -/
inductive Agree {ε α : Type} (errors : ε → ε → Prop) (results : α → α → Prop) :
    Except ε α → Except ε α → Prop
  | ok {a b : α} : results a b → Agree errors results (.ok a) (.ok b)
  | error {d e : ε} : errors d e → Agree errors results (.error d) (.error e)

/-- Diagnostics of the same fault. -/
def Diagnostic.SameFault (d e : Diagnostic) : Prop :=
  d.fault = e.fault

/-- Halts with diagnostics of the same fault. No budget has run out. -/
def Halt.SameFault : Halt → Halt → Prop
  | .fault d, .fault e => d.SameFault e
  | _, _ => False

namespace Agree

variable {ε α β : Type} {errors : ε → ε → Prop} {results : α → α → Prop} {final : β → β → Prop}

/-- **Stages that agree one after another.** -/
theorem bind {first second : Except ε α} {next after : α → Except ε β}
    (here : Agree errors results first second)
    (behind : ∀ a b, results a b → Agree errors final (next a) (after b)) :
    Agree errors final (first >>= next) (second >>= after) := by
  cases here with
  | ok alike => exact behind _ _ alike
  | error alike => exact .error alike

theorem lift {first second : Except Diagnostic α}
    (agree : Agree Diagnostic.SameFault results first second) :
    Agree Halt.SameFault results (Compilation.lift first) (Compilation.lift second) := by
  cases agree with
  | ok alike => exact .ok alike
  | error same => exact .error same

/-- Outcomes that are the same once their diagnostics are relabelled agree. -/
theorem of_mapError {m : Relabel} {first second : Except Diagnostic α}
    (same : first.mapError m.diagnostic = second.mapError m.diagnostic) :
    Agree Diagnostic.SameFault Eq first second := by
  cases first with
  | ok a =>
    cases second with
    | ok b => exact .ok (Except.ok.inj same)
    | error e => cases same
  | error d =>
    cases second with
    | ok b => cases same
    | error e =>
      have moved : m.diagnostic d = m.diagnostic e := Except.error.inj same
      have faults := congrArg Diagnostic.fault moved
      exact .error faults

end Agree

/-- What two actions leave behind agrees when one action follows both. -/
theorem Follows.agree {σ α : Type} {m : Relabel} {first second moved : EStateM Diagnostic σ α}
    (follows : Follows m first moved) (followsToo : Follows m second moved) (s : σ) :
    Agree Diagnostic.SameFault Eq (Compilation.finish first s) (Compilation.finish second s) := by
  have same : m.outcome (first s) = m.outcome (second s) :=
    (follows s).symm.trans (followsToo s)
  apply Agree.of_mapError (m := m)
  unfold Compilation.finish
  rw [EStateM.run, EStateM.run]
  generalize first s = run at same
  generalize second s = runToo at same
  cases run with
  | ok a r =>
    cases runToo with
    | ok b r' =>
      cases same
      rfl
    | error e r' => cases same
  | error d r =>
    cases runToo with
    | ok b r' => cases same
    | error e r' =>
      obtain ⟨same, -⟩ := EStateM.Result.error.inj same
      exact congrArg Except.error same

/-! ## Texts with the same tokens -/

/-- **Tokens that are the same up to their places**, comments left out. -/
def Token.SameLexemes (tokens others : List Token) : Prop :=
  (tokens.filter (·.kind ≠ .comment)).map Token.lexeme =
    (others.filter (·.kind ≠ .comment)).map Token.lexeme

instance (tokens others : List Token) : Decidable (Token.SameLexemes tokens others) :=
  inferInstanceAs (Decidable (_ = _))

namespace Cursor

variable {name : String} {text : List Char} {tokens : List Token}

/-- The tokens of a text are read for its file. -/
theorem file_ofTokens (covers : Token.Covers name text tokens) (firstId : Nat) :
    (ofTokens tokens firstId).file = name := by
  have first : fileOf tokens = name := by
    obtain ⟨front, same, -⟩ := covers.ended
    cases tokens with
    | nil => simp at same
    | cons token rest => exact (covers.exact token List.mem_cons_self).1.file
  rw [← first]
  unfold ofTokens
  split <;> rfl

/-- A cursor with nothing behind it is made of its tokens. -/
theorem ext_tokens {c d : Cursor} (start : c.behind = []) (startToo : d.behind = [])
    (tokens : c.tokens = d.tokens) (nextId : c.nextId = d.nextId) (file : c.file = d.file) :
    c = d := by
  obtain ⟨behind, current, ahead, cId, cFile⟩ := c
  obtain ⟨behindToo, currentToo, aheadToo, dId, dFile⟩ := d
  subst start startToo nextId file
  obtain ⟨rfl, rfl⟩ := List.cons.inj tokens
  rfl

/-- **Tokens with the same lexemes are entered alike** but for positions. -/
theorem ofTokens_placeless {textToo : List Char} {others : List Token}
    (covers : Token.Covers name text tokens) (coversToo : Token.Covers name textToo others)
    (same : Token.SameLexemes tokens others) (firstId : Nat) :
    Relabel.placeless.cursor (ofTokens tokens firstId) =
      Relabel.placeless.cursor (ofTokens others firstId) := by
  have erased (c : Cursor) : (Relabel.placeless.cursor c).tokens =
      (c.tokens.map Token.lexeme).map fun word => ⟨word.1, word.2, ⟨default, default⟩⟩ := by
    rw [List.map_map, Cursor.tokens, Cursor.tokens, List.map_append, List.map_reverse]
    rfl
  apply ext_tokens
  · exact congrArg (List.map _) (behind_ofTokens tokens firstId)
  · exact congrArg (List.map _) (behind_ofTokens others firstId)
  · rw [erased, erased, tokens_ofTokens covers, tokens_ofTokens coversToo, same]
  · exact (nextId_ofTokens tokens firstId).trans (nextId_ofTokens others firstId).symm
  · exact (file_ofTokens covers firstId).trans (file_ofTokens coversToo firstId).symm

end Cursor

/-! ## The stages -/

/-- A file that a parsed text amounts to, which makes its claims at different positions. -/
structure File.AlikeFor (file other : File) : Prop where
  same : file.relabel .placeless = other.relabel .placeless
  nodup : (Registration.positions file.claims).Nodup
  nodupOther : (Registration.positions other.claims).Nodup

/-- The claims of a file that a text is parsed to stand at different positions. -/
theorem nodup_positions {name text : String} {tokens : List Token} {firstId : Nat} {file : File}
    {c : Cursor} (scanned : Token.ofText name text = .ok tokens)
    (run : Parse.file .standard (.ofTokens tokens firstId) = .ok file c) :
    (Registration.positions file.claims).Nodup := by
  have parsed : File.ofTokens tokens firstId = .ok (file, c.nextId) :=
    File.ofTokens_eq_ok_iff.2 ⟨c, run, rfl⟩
  have offsets := File.nodup_offsets_claims scanned parsed
  have same : Registration.offsets file.claims =
      (Registration.positions file.claims).map Position.offset := by
    rw [Registration.positions, List.map_map]
    rfl
  rw [same] at offsets
  exact List.Nodup.of_map _ offsets

/-- Halts that are the same but for positions are of the same fault. -/
theorem Halt.sameFault_of_placeless {h other : Halt} (notBudget : h ≠ .exhausted)
    (same : Relabel.placeless.halt h = Relabel.placeless.halt other) : h.SameFault other := by
  cases h with
  | exhausted => exact absurd rfl notBudget
  | fault d =>
    cases other with
    | exhausted => cases same
    | fault e =>
      have faults := congrArg Diagnostic.fault (Halt.fault.inj same)
      exact faults

/-- **Texts with the same tokens are parsed alike.** -/
theorem File.ofTokens_agree {name text other : String} {tokens others : List Token}
    (scanned : Token.ofText name text = .ok tokens) (scannedToo : Token.ofText name other = .ok others)
    (same : Token.SameLexemes tokens others) (firstId : Nat) :
    Agree Halt.SameFault (fun a b => a.1.AlikeFor b.1) (File.ofTokens tokens firstId)
      (File.ofTokens others firstId) := by
  have covers := (Token.laid_of_scan scanned).covers
  have coversToo := (Token.laid_of_scan scannedToo).covers
  have entered := Cursor.ofTokens_placeless covers coversToo same firstId
  have run := Parse.commutes_file (g := .standard) (m := .placeless) (fun _ => rfl)
  have runs : Relabel.placeless.result (File.relabel .placeless)
        (Parse.file .standard (.ofTokens tokens firstId)) =
      Relabel.placeless.result (File.relabel .placeless)
        (Parse.file .standard (.ofTokens others firstId)) := by
    rw [← run, ← run, entered]
  have moved := Parse.moves_file Grammar.leavesEnd_standard (Cursor.ends_ofTokens tokens firstId)
  unfold File.ofTokens
  rw [EStateM.run, EStateM.run]
  cases first : Parse.file .standard (.ofTokens tokens firstId) with
  | ok file c =>
    cases second : Parse.file .standard (.ofTokens others firstId) with
    | ok fileToo d =>
      rw [first, second] at runs
      obtain ⟨files, -⟩ := EStateM.Result.ok.inj runs
      exact .ok ⟨files, nodup_positions scanned first, nodup_positions scannedToo second⟩
    | error h d =>
      rw [first, second] at runs
      cases runs
  | error h c =>
    cases second : Parse.file .standard (.ofTokens others firstId) with
    | ok fileToo d =>
      rw [first, second] at runs
      cases runs
    | error other d =>
      rw [first, second] at runs
      rw [first] at moved
      obtain ⟨halts, -⟩ := EStateM.Result.error.inj runs
      cases moved with
      | halted _ notBudget => exact .error (Halt.sameFault_of_placeless notBudget halts)

namespace Compilation

/-- **The types of files that are the same but for positions are resolved alike.** -/
theorem resolveAll_agree {t other : Tree} {file fileToo : File} (module : Path)
    (trees : t.relabel .placeless = other.relabel .placeless)
    (files : file.relabel .placeless = fileToo.relabel .placeless) :
    Agree Diagnostic.SameFault Eq (finish (resolveAll t [⟨module, file⟩]) .empty)
      (finish (resolveAll other [⟨module, fileToo⟩]) .empty) := by
  have follows (t : Tree) (file : File) :
      Follows .placeless (resolveAll t [⟨module, file⟩])
        (resolveAll (t.relabel .placeless) [⟨module, file.relabel .placeless⟩]) :=
    .bind (Tree.follows_resolve (fun _ => rfl) t module file) fun _ => .pure ()
  have second := follows other fileToo
  rw [← trees, ← files] at second
  exact (follows t file).agree second .empty

/-- A check of each relabelled element ends as the check of each element, its fault relabelled. -/
theorem forM_mapError {γ : Type} {check moved : γ → Except Diagnostic Unit} {f : γ → γ}
    {g : Diagnostic → Diagnostic} (each : ∀ x, moved (f x) = (check x).mapError g) (xs : List γ) :
    (xs.map f).forM moved = (xs.forM check).mapError g := by
  induction xs with
  | nil => rfl
  | cons first rest ih =>
    change Except.bind (moved (f first)) (fun _ => (rest.map f).forM moved) =
      (Except.bind (check first) fun _ => rest.forM check).mapError g
    rw [each, ih]
    cases check first <;> rfl

/-- **The functions of a relabelled file are checked as those of the file** are. -/
theorem checkAll_relabel (m : Relabel) (t : Tree) (module : Path) (file : File) :
    checkAll (t.relabel m) [⟨module, file.relabel m⟩] =
      (checkAll t [⟨module, file⟩]).mapError m.diagnostic := by
  refine forM_mapError (f := fun placed => Placed.mk placed.module (placed.file.relabel m))
    (fun placed => ?_) [Placed.mk module file]
  rw [File.functions_relabel]
  exact forM_mapError (t.checkScopes_relabelled m placed.module) _

/-- **The functions of files that are the same but for positions are checked alike.** -/
theorem checkAll_agree {t other : Tree} {file fileToo : File} (module : Path)
    (trees : t.relabel .placeless = other.relabel .placeless)
    (files : file.relabel .placeless = fileToo.relabel .placeless) :
    Agree Diagnostic.SameFault Eq (checkAll t [⟨module, file⟩])
      (checkAll other [⟨module, fileToo⟩]) := by
  apply Agree.of_mapError (m := .placeless)
  rw [← checkAll_relabel, ← checkAll_relabel, trees, files]

end Compilation

/-! ## The law -/

/-- **What is seen of a symbol tree without its positions**: for each node in the order of creation
its path, its kind, the number of its parent and the number of type arguments. -/
def Tree.outline (t : Tree) : List (Path × Symbol.Kind × Option Nat × Nat) :=
  t.nodes.map fun node => (node.path, node.claim.kind, t.parent? node, node.claim.value.arity)

theorem Tree.outline_relabel (m : Relabel) (t : Tree) : (t.relabel m).outline = t.outline := by
  rw [outline, outline, relabel, List.map_map]
  refine List.map_congr_left fun node _ => ?_
  have parent : (t.relabel m).parent? (node.relabel m) = t.parent? node := by
    rw [parent?, parent?, find?_relabel]
    rfl
  have arity := node.claim.arity_relabel m
  change (_, _, (t.relabel m).parent? (node.relabel m), (node.claim.relabel m).value.arity) = _
  rw [parent, arity]
  rfl

/-- **Programs that are the same but for positions**: their files with the numbers of all segments,
the nodes of their trees, and what their types refer to. -/
structure Program.SameButPlaces (p q : Program) : Prop where
  files : p.files.map (File.relabel .placeless) = q.files.map (File.relabel .placeless)
  nodes : p.tree.outline = q.tree.outline
  resolutions : p.resolutions = q.resolutions

namespace Compilation

/-- **Files that are the same but for positions amount to the same program**, or to the same
fault. -/
theorem assemble_agree (config : Config) {file other : File} (alike : file.AlikeFor other) :
    Agree Diagnostic.SameFault Program.SameButPlaces (assemble config [([], file)])
      (assemble config [([], other)]) := by
  have claims : file.claims.map (Registration.relabel .placeless) =
      other.claims.map (Registration.relabel .placeless) := by
    rw [← File.claims_relabel, ← File.claims_relabel, alike.same]
  unfold assemble
  rcases registerAll_root_alike config alike.nodup alike.nodupOther claims with
    ⟨t, r, run, runToo, trees⟩ | ⟨d, e, t, r, run, runToo, fault⟩
  · rw [finish, finish, EStateM.run, EStateM.run, run, runToo]
    refine (resolveAll_agree [] trees alike.same).bind ?_
    rintro ⟨⟨⟩, resolutions⟩ _ rfl
    refine (checkAll_agree [] trees alike.same).bind fun _ _ _ => .ok ⟨?_, ?_, rfl⟩
    · exact congrArg (fun f => [f]) alike.same
    · rw [← Tree.outline_relabel .placeless, trees, Tree.outline_relabel]
  · rw [finish, finish, EStateM.run, EStateM.run, run, runToo]
    exact .error fault

end Compilation

/-- A single source is parsed and stands at the root. -/
theorem compile_eq {config : Config} {file : Option String} {source : String} {tokens : List Token}
    (scanned : Token.ofText (file.getD config.defaultFile) source = .ok tokens) :
    compile config file source = (File.ofTokens tokens 0 >>= fun parsed =>
      Compilation.lift (Compilation.assemble config [([], parsed.1)])) := by
  have parses : Compilation.parseSource (file.getD config.defaultFile) source 0 =
      File.ofTokens tokens 0 := by
    rw [Compilation.parseSource, scanned]
    rfl
  rw [compile, compileUnits, Compilation.parseUnits, parses]
  cases File.ofTokens tokens 0 <;> rfl

/-- **Layout and comments do not matter.** Two texts whose tokens are the same up to their places,
comments left out, are compiled to programs that are the same but for positions, or they are refused
with the same fault. -/
theorem compile_layout {config : Config} {file : Option String} {source other : String}
    {tokens others : List Token}
    (scanned : Token.ofText (file.getD config.defaultFile) source = .ok tokens)
    (scannedToo : Token.ofText (file.getD config.defaultFile) other = .ok others)
    (same : Token.SameLexemes tokens others) :
    Agree Halt.SameFault Program.SameButPlaces (compile config file source)
      (compile config file other) := by
  rw [compile_eq scanned, compile_eq scannedToo]
  refine (File.ofTokens_agree scanned scannedToo same 0).bind fun a b alike => ?_
  exact (Compilation.assemble_agree config alike).lift

/-- A text written without a space that could be left out. -/
def tight : String :=
  "struct A{int x;}fn f(A a):int{return a.x;}"

/-- The same text with a comment, with spaces and on several lines. -/
def loose : String :=
  "// A structure.\nstruct A { int x; }\n\n" ++ "fn f(A a): int { return a.x; }\n"

/-- The two texts have tokens at different places, and they are compiled with the same outcome. -/
theorem compile_layout_tight : ∃ tokens others, Token.ofText "a" tight = .ok tokens ∧
    Token.ofText "a" loose = .ok others ∧ tokens ≠ others ∧ Token.SameLexemes tokens others ∧
    Agree Halt.SameFault Program.SameButPlaces (compile .standard (some "a") tight)
      (compile .standard (some "a") loose) := by
  have lexemes : (match Token.ofText "a" tight, Token.ofText "a" loose with
      | .ok tokens, .ok others => decide (tokens ≠ others ∧ Token.SameLexemes tokens others)
      | _, _ => false) = true := by
    decide +kernel
  cases scanned : Token.ofText "a" tight with
  | error d =>
    rw [scanned] at lexemes
    cases lexemes
  | ok tokens =>
    cases scannedToo : Token.ofText "a" loose with
    | error d =>
      rw [scanned, scannedToo] at lexemes
      cases lexemes
    | ok others =>
      rw [scanned, scannedToo] at lexemes
      obtain ⟨differ, alike⟩ := of_decide_eq_true lexemes
      exact ⟨tokens, others, rfl, rfl, differ, alike,
        @compile_layout .standard (some "a") _ _ _ _ scanned scannedToo alike⟩

end FrontEnd

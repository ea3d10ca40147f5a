import FrontEnd.Proofs.Layout
import FrontEnd.Proofs.References
import FrontEnd.Proofs.Symbol.Held
import FrontEnd.Proofs.UnitOrder

/-!
# Where diagnostics point

A lexical fault stands behind a first part of the text. Every other fault has its position from the
tokens, and no stage makes a position of its own: parsing, registering, resolving and checking
commute with a relabelling that keeps the positions of the text and moves all others to its start
(`Relabel.onto`). It touches no token, so it touches nothing that is made of the tokens, and what it
does not touch is a position of the text.

The one exception is what is built in. Its claims have no position, and they are made behind those
of the program, so a program that declares a name that is built in is refused at a place that is
nowhere (`Position.nowhere`).

**The law** (`compile_fault_position`): a source that is not compiled has a fault, at a position of
this source, unless what is built in collides with a declaration of it or with itself.

So positions are as large as the text and no larger: where that has fewer bytes than the largest word
of 32 bits, nothing is lost when offsets and lines are kept in such words (`compile_in_words`).
-/

namespace FrontEnd

/-! ## Lexical faults -/

/-- **A lexical fault stands behind a first part of the text**, by induction on the text. -/
theorem Token.place_of_scan {here : Position} {text : List Char} {passed : Nat} {d : Diagnostic}
    (failed : scan here text passed = .error d) :
    ∃ front back, text.drop passed = front ++ back ∧ d.position = here.past front := by
  induction text generalizing here passed with
  | nil => cases failed
  | cons c rest ih =>
    cases passed with
    | succ passed => exact ih failed
    | zero =>
      rw [scan] at failed
      split at failed
      · cases failed
        exact ⟨[], c :: rest, rfl, rfl⟩
      next pattern count first =>
        have split : (c :: rest).take count ++ rest.drop (count - 1) = c :: rest := by
          obtain ⟨less, rfl⟩ := Nat.exists_eq_add_of_lt (Pattern.first?_pos first)
          simp
        have later (failed : scan (here.past ((c :: rest).take count)) rest (count - 1) =
            .error d) : ∃ front back, c :: rest = front ++ back ∧ d.position = here.past front := by
          obtain ⟨front, back, same, place⟩ := ih failed
          refine ⟨(c :: rest).take count ++ front, back, ?_, ?_⟩
          · rw [List.append_assoc, ← same, split]
          · rw [place, Position.past_append]
        dsimp only at failed
        split at failed
        · cases failed
          exact ⟨[], c :: rest, rfl, rfl⟩
        · exact later failed
        · apply later
          cases scanned : scan (here.past ((c :: rest).take count)) rest (count - 1) with
          | ok tokens =>
            rw [scanned] at failed
            cases failed
          | error e =>
            rw [scanned] at failed
            exact failed

/-- **The position of a lexical fault is exact.** -/
theorem Token.exact_of_ofText {file text : String} {d : Diagnostic}
    (failed : ofText file text = .error d) : d.position.Exact file text.toList := by
  obtain ⟨front, back, same, place⟩ := place_of_scan failed
  rw [List.drop_zero] at same
  rw [place, same]
  exact Position.exact_past file front back

/-! ## The positions of a text -/

namespace Position

variable {file : String} {text : List Char} {p : Position}

instance : Decidable (p.Exact file text) :=
  decidable_of_iff (byteLength (textBefore text p.offset) = p.offset ∧
      p.line = 1 + newlines (textBefore text p.offset) ∧ p.file = file)
    ⟨fun ⟨boundary, line, file⟩ => ⟨boundary, line, file⟩, fun h => ⟨h.boundary, h.line, h.file⟩⟩

/-- An exact position is no further than the end of the text. -/
theorem Exact.offset_le (exact : p.Exact file text) : p.offset ≤ byteLength text := by
  have whole := byteLength_append (textBefore text p.offset) (splitBytes p.offset text).2
  rw [textBefore, splitBytes_append] at whole
  have boundary := exact.boundary
  rw [textBefore] at boundary
  omega

end Position

/-- **The relabelling that keeps the positions of a text** and moves every other to its start. -/
def Relabel.onto (file : String) (text : List Char) : Relabel where
  id n := n
  position p := if p.Exact file text then p else .first file
  file name := name

namespace Relabel

variable {file : String} {text : List Char}

/-- Every position is moved to one of the text. -/
theorem exact_onto (p : Position) : ((onto file text).position p).Exact file text := by
  change (if p.Exact file text then p else .first file).Exact file text
  split
  next exact => exact exact
  next => exact Position.exact_past file [] text

/-- A position of the text stays. -/
theorem onto_eq_self {p : Position} (exact : p.Exact file text) :
    (onto file text).position p = p :=
  if_pos exact

/-- A diagnostic that stays points into the text. -/
theorem exact_of_diagnostic_onto {d : Diagnostic} (same : (onto file text).diagnostic d = d) :
    d.position.Exact file text := by
  rw [← same]
  exact exact_onto d.position

/-- The tokens of a text stay. -/
theorem cursor_onto {tokens : List Token} (covers : Token.Covers file text tokens) (firstId : Nat) :
    (onto file text).cursor (.ofTokens tokens firstId) = .ofTokens tokens firstId := by
  apply cursor_eq_self _ rfl rfl
  intro t mem
  rw [Cursor.tokens_ofTokens covers] at mem
  obtain ⟨start, stop⟩ := covers.exact t (List.mem_of_mem_filter mem)
  rw [token, span, onto_eq_self start, onto_eq_self stop]

end Relabel

/-! ## Registering -/

namespace Tree

/-- **A declaration that is refused** is a fault at the place of the further claim, which is not
compatible with the one held. -/
theorem declare_eq_error {base : Nat} {path : Path} {further : Claim} {t after : Tree}
    {d : Diagnostic} (failed : declare base path further t = .error d after) :
    d = ⟨.duplicateDeclaration (t.pathOf base ++ path).written, further.value.position⟩ ∧
      ∃ held, t.claimAt? (t.pathOf base ++ path) = some held ∧ held.merge? further = none := by
  cases claimed : t.claimAt? (t.pathOf base ++ path) with
  | none =>
    rw [declare_of_absent further claimed] at failed
    cases failed
  | some held =>
    obtain ⟨id, -, run⟩ := declare_of_claimed further claimed
    rw [run] at failed
    cases merges : held.merge? further with
    | some merged =>
      rw [merges] at failed
      cases failed
    | none =>
      rw [merges] at failed
      cases failed
      exact ⟨rfl, held, rfl, merges⟩

/-- **Declarations that are refused** are refused at one of them, behind those before it. -/
theorem declareAll_eq_error {base : Nat} {claims : List Registration} {t after : Tree}
    {d : Diagnostic} (failed : declareAll base claims t = .error d after) :
    ∃ before r rest between, claims = before ++ r :: rest ∧
      declareAll base before t = .ok () between ∧
      declare base r.path r.claim between = .error d after := by
  induction claims generalizing t with
  | nil => cases failed
  | cons first rest ih =>
    rw [declareAll_cons] at failed
    cases run : declare base first.path first.claim t with
    | error e between =>
      rw [run] at failed
      cases failed
      exact ⟨[], first, rest, t, rfl, rfl, run⟩
    | ok id between =>
      rw [run] at failed
      obtain ⟨before, r, later, reached, rfl, passed, refused⟩ := ih failed
      refine ⟨first :: before, r, later, reached, rfl, ?_, refused⟩
      rw [declareAll_cons, run]
      exact passed

/-- A tree all of whose claims stay stays. -/
theorem relabel_eq_self {m : Relabel} {t : Tree} (holds : t.Holds fun claim => claim.relabel m = claim) :
    t.relabel m = t := by
  have nodes : t.nodes.map (Node.relabel m) = t.nodes := by
    refine (List.map_congr_left fun node mem => ?_).trans (List.map_id _)
    rw [Node.relabel, holds node mem]
    rfl
  rw [relabel, nodes]

/-- **Claims that stay are declared in a tree that stays.** -/
theorem relabel_of_declareAll {m : Relabel} {base : Nat} {claims : List Registration}
    (stay : ∀ r ∈ claims, r.claim.relabel m = r.claim) {grown : Tree}
    (run : declareAll base claims .empty = .ok () grown) : grown.relabel m = grown := by
  have apart : m.TellsApart fun claim => claim.relabel m = claim := by
    intro a b stays staysToo same
    rw [← stays, same, staysToo]
  have atRoot : Tree.empty.Holds fun claim => claim.relabel m = claim :=
    List.forall_mem_singleton.2 rfl
  have alike := alike_declareAll apart rfl base stay atRoot
  rw [run] at alike
  generalize declareAll base (claims.map (Registration.relabel m)) (relabel m .empty) = other at alike
  cases alike with
  | ok holds => exact relabel_eq_self holds

end Tree

/-! ## What is built in -/

/-- **What is built in collides**, under a name, with a declaration at the top of a file, or as a
type with itself as a function. -/
def Config.Collides (config : Config) (file : File) (name : String) : Prop :=
  name ∈ config.types ++ config.functions ∧
    ((∃ r ∈ file.claims, r.path = [name]) ∨ (name ∈ config.types ∧ name ∈ config.functions))

/-- **What is built in** is claimed under its name, a type as a type and a function as a function. -/
theorem Registration.mem_ofConfig_iff {config : Config} {r : Registration} :
    r ∈ ofConfig config ↔ (∃ name ∈ config.types, r = ⟨[name], .builtinType⟩) ∨
      ∃ name ∈ config.functions, r = ⟨[name], .builtinFunction⟩ := by
  simp only [ofConfig, List.mem_append, List.mem_map, eq_comm]

/-- Two different claims that are built in under one name are a type and a function. -/
theorem Registration.both_of_ofConfig {config : Config} {r s : Registration}
    (mem : r ∈ ofConfig config) (memToo : s ∈ ofConfig config) {name : String}
    (here : r.path = [name]) (hereToo : s.path = [name]) (differ : r.claim ≠ s.claim) :
    name ∈ config.types ∧ name ∈ config.functions := by
  rcases mem_ofConfig_iff.1 mem with ⟨own, isType, rfl⟩ | ⟨own, isFunction, rfl⟩ <;>
    rcases mem_ofConfig_iff.1 memToo with ⟨other, isTypeToo, rfl⟩ | ⟨other, isFunctionToo, rfl⟩ <;>
    cases here <;> cases hereToo
  · exact absurd rfl differ
  · exact ⟨isType, isFunctionToo⟩
  · exact ⟨isTypeToo, isFunction⟩
  · exact absurd rfl differ

/-- A claim that is refused differs from the one held, which says something. -/
theorem Claim.differ_of_merge?_eq_none {held further : Claim} (refused : held.merge? further = none) :
    held.kind ≠ .unknown ∧ held ≠ further := by
  have none : ∀ merged, held.merge? further ≠ some merged := by
    intro merged merges
    rw [refused] at merges
    cases merges
  constructor
  · intro isOpen
    exact none further (merge?_eq_some_iff.2 (.inl ⟨isOpen, rfl⟩))
  · intro same
    subst same
    exact none held (refines_refl held)

/-- A path of one segment is written as that segment. -/
theorem Path.written_singleton (name : String) : Path.written [name] = name := by
  simp [Path.written]

/-- **Claims at the root that are refused**: at the place of a claim of the file, or nowhere, where
what is built in collides. -/
theorem Tree.position_of_declareAll {config : Config} {file : File} {after : Tree} {d : Diagnostic}
    (failed : declareAll root (file.claims ++ Registration.ofConfig config) .empty =
      .error d after) :
    (∃ r ∈ file.claims, d.position = r.claim.value.position) ∨
      ∃ name, d = ⟨.duplicateDeclaration name, .nowhere⟩ ∧ config.Collides file name := by
  obtain ⟨before, r, rest, between, split, passed, refused⟩ := declareAll_eq_error failed
  obtain ⟨rfl, held, claimed, differs⟩ := declare_eq_error refused
  have among (s : Registration) (mem : s ∈ before ++ r :: rest) :
      s ∈ file.claims ∨ s ∈ Registration.ofConfig config :=
    List.mem_append.1 (split ▸ mem)
  rcases among r (by simp) with inFile | builtIn
  · exact .inl ⟨r, inFile, rfl⟩
  have made : ∀ s ∈ before, s.claim.Made := by
    intro s mem
    rcases among s (List.mem_append_left _ mem) with inFile | builtIn
    · exact File.claims_made inFile
    · exact Registration.ofConfig_made builtIn
  have outcome := outcome_declareAll_root isMap_empty hasRoot_empty made
  rw [passed] at outcome
  cases outcome with
  | accepted isMap grows leads =>
    have atRoot : between.pathOf root = [] := grows.pathOf_eq Nat.zero_lt_one
    rw [atRoot, List.nil_append] at claimed ⊢
    obtain ⟨known, other⟩ := Claim.differ_of_merge?_eq_none differs
    obtain ⟨name, named, here, nowhere⟩ : ∃ name ∈ config.types ++ config.functions,
        r.path = [name] ∧ r.claim.value.position = .nowhere := by
      rcases Registration.mem_ofConfig_iff.1 builtIn with
        ⟨name, isType, rfl⟩ | ⟨name, isFunction, rfl⟩
      · exact ⟨name, List.mem_append_left _ isType, rfl, rfl⟩
      · exact ⟨name, List.mem_append_right _ isFunction, rfl, rfl⟩
    rw [here] at claimed
    rw [here, nowhere, Path.written_singleton]
    refine .inr ⟨name, rfl, named, ?_⟩
    rcases leads.source claimed known with fromStart | registered
    · have atStart : [name] ∈ Tree.empty.paths := Tree.mem_paths_iff.2 ⟨held, fromStart⟩
      exact absurd (List.mem_singleton.1 atStart) (List.cons_ne_nil _ _)
    · rcases among _ (List.mem_append_left _ registered) with inFile | builtInToo
      · exact .inl ⟨_, inFile, rfl⟩
      · exact .inr (Registration.both_of_ofConfig builtInToo builtIn rfl here other)

/-! ## The stages -/

/-- **A file of a text makes its claims at positions of the text**, so they stay wherever these do. -/
theorem File.exact_of_claims {name : String} {text : List Char} {file : File}
    (stays : file.relabel (.onto name text) = file) {r : Registration} (mem : r ∈ file.claims) :
    r.claim.value.position.Exact name text ∧ ∀ m : Relabel,
      (∀ p : Position, p.Exact name text → m.position p = p) → r.claim.relabel m = r.claim := by
  have claims := File.claims_relabel (.onto name text) file
  rw [stays] at claims
  rw [claims] at mem
  obtain ⟨⟨path, claim⟩, inFile, rfl⟩ := List.mem_map.1 mem
  cases File.claims_ofSource inFile with
  | @declared kind position arity =>
    have exact : ((Relabel.onto name text).position position).Exact name text :=
      Relabel.exact_onto position
    refine ⟨exact, fun m keeps => ?_⟩
    change Claim.mk kind (.declared (m.position ((Relabel.onto name text).position position))
      arity) = _
    rw [keeps _ exact]
    rfl

/-- A tree of a file and of what is built in stays when the claims of the file do: what is built in
has no position. -/
theorem Tree.relabel_of_file {m : Relabel} {config : Config} {file : File} {t : Tree}
    (stay : ∀ r ∈ file.claims, r.claim.relabel m = r.claim)
    (run : declareAll root (file.claims ++ Registration.ofConfig config) .empty = .ok () t) :
    t.relabel m = t := by
  apply relabel_of_declareAll _ run
  intro r mem
  rcases List.mem_append.1 mem with inFile | builtIn
  · exact stay r inFile
  · rcases Registration.mem_ofConfig_iff.1 builtIn with ⟨name, -, rfl⟩ | ⟨name, -, rfl⟩ <;> rfl

namespace Compilation

/-- **A file of a text is assembled with faults at positions of the text**, or with a collision of
what is built in. -/
theorem position_of_assemble {config : Config} {name : String} {text : List Char} {file : File}
    (stays : file.relabel (.onto name text) = file) {d : Diagnostic}
    (failed : assemble config [([], file)] = .error d) :
    d.position.Exact name text ∨
      ∃ symbol, d = ⟨.duplicateDeclaration symbol, .nowhere⟩ ∧ config.Collides file symbol := by
  unfold assemble at failed
  rw [finish, EStateM.run, registerAll_root] at failed
  cases registers : Tree.declareAll Tree.root (file.claims ++ Registration.ofConfig config) .empty with
  | error e after =>
    rw [registers] at failed
    cases failed
    rcases Tree.position_of_declareAll registers with ⟨r, mem, same⟩ | collides
    · rw [same]
      exact .inl (File.exact_of_claims stays mem).1
    · exact .inr collides
  | ok value t =>
    rw [registers] at failed
    left
    apply Relabel.exact_of_diagnostic_onto
    have treeStays : t.relabel (.onto name text) = t :=
      Tree.relabel_of_file (fun r mem =>
        (File.exact_of_claims stays mem).2 _ fun _ => Relabel.onto_eq_self) registers
    have failed : (finish (resolveAll t [⟨[], file⟩]) .empty >>= fun found =>
        checkAll t [⟨[], file⟩] >>= fun _ => pure (Program.mk [file] t found.2)) = .error d := failed
    rcases except_bind_eq_error.1 failed with unresolved | ⟨found, -, failed⟩
    · obtain ⟨reached, run⟩ := finish_eq_error unresolved
      have follows : Follows (.onto name text) (resolveAll t [⟨[], file⟩])
          (resolveAll (t.relabel (.onto name text)) [⟨[], file.relabel (.onto name text)⟩]) :=
        .bind (Tree.follows_resolve (fun _ => rfl) t [] file) fun _ => .pure ()
      rw [treeStays, stays] at follows
      have same := follows .empty
      rw [run] at same
      exact (EStateM.Result.error.inj same).1.symm
    · rcases except_bind_eq_error.1 failed with refused | ⟨-, -, failed⟩
      · have same := checkAll_relabel (.onto name text) t [] file
        rw [treeStays, stays, refused] at same
        exact (Except.error.inj same).symm
      · cases failed

end Compilation

/-! ## The law -/

/-- **Where a source that is not compiled is at fault.** Every diagnostic has the name of the file, an
offset between two characters of the source or at its end, and the line that the newlines before it
give, except where what is built in collides with a declaration of the source or with itself. -/
theorem compile_fault_position {config : Config} {file : Option String} {source : String} {h : Halt}
    (failed : compile config file source = .error h) :
    ∃ d, h = .fault d ∧
      ((d.position.Exact (file.getD config.defaultFile) source.toList ∧
          d.position.offset ≤ byteLength source.toList) ∨
        ∃ name tokens parsed nextId,
          Token.ofText (file.getD config.defaultFile) source = .ok tokens ∧
          File.ofTokens tokens 0 = .ok (parsed, nextId) ∧ config.Collides parsed name ∧
          d = ⟨.duplicateDeclaration name, .nowhere⟩) := by
  cases scanned : Token.ofText (file.getD config.defaultFile) source with
  | error d =>
    have run : compile config file source = .error (.fault d) := by
      rw [compile, compileUnits, Compilation.parseUnits, Compilation.parseSource, scanned]
      rfl
    rw [run] at failed
    cases failed
    have exact := Token.exact_of_ofText scanned
    exact ⟨d, rfl, .inl ⟨exact, exact.offset_le⟩⟩
  | ok tokens =>
    rw [compile_eq scanned] at failed
    have covers := (Token.laid_of_scan scanned).covers
    obtain ⟨files, halts⟩ := File.ofTokens_eq_self (fun _ => rfl) (Relabel.cursor_onto covers 0)
    rcases except_bind_eq_error.1 failed with refused | ⟨⟨parsed, nextId⟩, run, failed⟩
    · cases h with
      | exhausted => exact absurd refused (File.ofTokens_ne_exhausted tokens 0)
      | fault d =>
        have exact := Relabel.exact_of_diagnostic_onto (Halt.fault.inj (halts _ refused))
        exact ⟨d, rfl, .inl ⟨exact, exact.offset_le⟩⟩
    · cases assembled : Compilation.assemble config [([], parsed)] with
      | ok program =>
        rw [assembled] at failed
        cases failed
      | error d =>
        rw [assembled] at failed
        cases failed
        refine ⟨d, rfl, ?_⟩
        rcases Compilation.position_of_assemble (files _ _ run) assembled with
          exact | ⟨name, same, collides⟩
        · exact .inl ⟨exact, exact.offset_le⟩
        · exact .inr ⟨name, tokens, parsed, nextId, rfl, run, collides, same⟩

/-- A source with a name that is not declared, behind a character of several bytes and a newline. -/
def undeclared : String :=
  "// é\nfn f(): void { x; }"

/-- The source is refused on its second line, at the byte where the name stands. -/
theorem compile_fault_position_undeclared :
    ∃ h, compile .standard (some "a") undeclared = .error h ∧
      ∃ d, h = .fault d ∧ d.position = ⟨21, 2, "a"⟩ ∧ d.position.Exact "a" undeclared.toList ∧
        d.position.offset ≤ byteLength undeclared.toList := by
  have found : (faultOf? (compile .standard (some "a") undeclared)).any
      (fun d => decide (d.position = ⟨21, 2, "a"⟩)) = true := by
    decide +kernel
  obtain ⟨d, failed, here⟩ := exists_fault_of_any found
  obtain ⟨_, same, place⟩ := compile_fault_position failed
  cases same
  refine ⟨_, failed, _, rfl, of_decide_eq_true here, ?_⟩
  rcases place with into | ⟨name, _, _, _, _, _, _, rfl⟩
  · exact into
  · cases of_decide_eq_true here

/-- **A structure with the name of a built-in type** is refused at a place that is in no file and on
no line. -/
theorem compile_structInt :
    ∃ d, compile .standard none "struct int { }" = .error (.fault d) ∧
      d.position.file ≠ Config.standard.defaultFile ∧
      d.position.line ≠ 1 + newlines (textBefore "struct int { }".toList d.position.offset) := by
  have found : (faultOf? (compile .standard none "struct int { }")).any
      (fun d => decide (d.position = .nowhere)) = true := by
    decide +kernel
  obtain ⟨d, failed, here⟩ := exists_fault_of_any found
  refine ⟨d, failed, ?_⟩
  rw [of_decide_eq_true here]
  decide

/-! ## Positions in words -/

/-- **The relabelling that cuts offsets and lines down to words** of 32 bits. -/
def Relabel.words : Relabel :=
  ⟨fun n => n, fun p => ⟨p.offset % UInt32.size, p.line % UInt32.size, p.file⟩, fun name => name⟩

/-- A text has no more newlines than bytes. -/
theorem newlines_le_byteLength (text : List Char) : newlines text ≤ byteLength text := by
  induction text with
  | nil => exact Nat.le_refl _
  | cons c rest ih =>
    have some := c.utf8Size_pos
    have here : newlines (c :: rest) ≤ newlines rest + 1 := by
      rw [newlines, newlines, List.count_cons]
      split <;> omega
    rw [byteLength_cons]
    omega

/-- The positions of a text below the largest word are words. -/
theorem Position.Exact.words_eq_self {p : Position} {file : String} {text : List Char}
    (exact : p.Exact file text) (short : byteLength text + 1 < UInt32.size) :
    Relabel.words.position p = p := by
  have reaches := exact.offset_le
  have lines := newlines_le_byteLength (textBefore text p.offset)
  rw [exact.boundary] at lines
  have onLine : p.line < UInt32.size := by
    rw [exact.line]
    omega
  change Position.mk (p.offset % UInt32.size) (p.line % UInt32.size) p.file = p
  rw [Nat.mod_eq_of_lt (by omega), Nat.mod_eq_of_lt onLine]

/-- **A source that compiles** is one file, and its claims and what is built in are the symbol
tree. -/
theorem Compilation.file_of_compile {config : Config} {file : Option String} {source : String}
    {program : Program} (compiled : compile config file source = .ok program) :
    ∃ tokens parsed nextId, Token.ofText (file.getD config.defaultFile) source = .ok tokens ∧
      File.ofTokens tokens 0 = .ok (parsed, nextId) ∧ program.files = [parsed] ∧
      Tree.declareAll Tree.root (parsed.claims ++ Registration.ofConfig config) .empty =
        .ok () program.tree := by
  obtain ⟨files, parses, assembled⟩ := except_bind_eq_ok.1 compiled
  obtain ⟨⟨parsed, nextId⟩, parsesOne, parses⟩ := except_bind_eq_ok.1 parses
  obtain ⟨_, none, parses⟩ := except_bind_eq_ok.1 parses
  cases none
  cases parses
  obtain ⟨tokens, scanned, run⟩ := except_bind_eq_ok.1 parsesOne
  obtain ⟨⟨placed, registered⟩, -, -, files_eq⟩ := assemble_eq_ok_iff.1 (lift_eq_ok assembled)
  refine ⟨tokens, parsed, nextId, lift_eq_ok scanned, run, files_eq, ?_⟩
  have registers : registerAll config [([], parsed)] .empty = .ok placed program.tree := registered
  rw [registerAll_root] at registers
  cases declares : Tree.declareAll Tree.root (parsed.claims ++ Registration.ofConfig config)
    .empty with
  | error d t =>
    rw [declares] at registers
    cases registers
  | ok value t =>
    rw [declares] at registers
    cases registers
    rfl

/-- **Below the largest word positions are words.** Where a source has fewer bytes, no token, no part
of a file, no claim of the symbol tree and no diagnostic is touched when offsets and lines are cut
down to words. -/
theorem compile_in_words {config : Config} {file : Option String} {source : String}
    (short : byteLength source.toList + 1 < UInt32.size) :
    (∀ tokens, Token.ofText (file.getD config.defaultFile) source = .ok tokens →
      tokens.map Relabel.words.token = tokens) ∧
    (∀ program, compile config file source = .ok program →
      program.files.map (File.relabel .words) = program.files ∧
        program.tree.relabel .words = program.tree) ∧
    ∀ h, compile config file source = .error h → Relabel.words.halt h = h := by
  have tokensStay {tokens : List Token}
      (scanned : Token.ofText (file.getD config.defaultFile) source = .ok tokens) :
      ∀ token ∈ tokens, Relabel.words.token token = token := by
    intro token mem
    obtain ⟨start, stop⟩ := (Token.laid_of_scan scanned).covers.exact token mem
    rw [Relabel.token, Relabel.span, start.words_eq_self short, stop.words_eq_self short]
  refine ⟨fun tokens scanned => ?_, fun program compiled => ?_, fun h failed => ?_⟩
  · exact (List.map_congr_left (tokensStay scanned)).trans (List.map_id tokens)
  · obtain ⟨tokens, parsed, nextId, scanned, run, files, declares⟩ :=
      Compilation.file_of_compile compiled
    have covers := (Token.laid_of_scan scanned).covers
    have inText := (File.ofTokens_eq_self (fun _ => rfl) (Relabel.cursor_onto covers 0)).1 _ _ run
    have stays : Relabel.words.cursor (.ofTokens tokens 0) = .ofTokens tokens 0 := by
      apply Relabel.cursor_eq_self _ rfl rfl
      intro token mem
      rw [Cursor.tokens_ofTokens covers] at mem
      exact tokensStay scanned token (List.mem_of_mem_filter mem)
    have inWords := (File.ofTokens_eq_self (fun _ => rfl) stays).1 _ _ run
    refine ⟨?_, ?_⟩
    · rw [files, List.map_singleton, inWords]
    · exact Tree.relabel_of_file (fun r mem =>
        (File.exact_of_claims inText mem).2 _ fun p exact => exact.words_eq_self short) declares
  · obtain ⟨d, rfl, ⟨exact, -⟩ | ⟨name, _, _, _, -, -, -, rfl⟩⟩ := compile_fault_position failed
    · rw [Relabel.halt, Relabel.diagnostic, exact.words_eq_self short]
    · rfl

end FrontEnd

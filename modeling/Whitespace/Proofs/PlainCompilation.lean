/-
Module: Whitespace.Proofs.PlainCompilation
Purpose: The extensions are a conservative addition to the language. What compiles without them has none
  of their instructions, whatever libraries it includes; and it compiles to the same text with them,
  unless one of its sources includes the library that has a variant of its own for the extensions.
Main exports: Instruction.isExtension, Statement.emit_plain, LineProgram.code_plain,
  readStatements_extended, Expands.extended, extensions_conservative
-/
import Whitespace.Proofs.ClosedPrograms
import Whitespace.Proofs.DepthFirst

namespace Whitespace

/-- Is it an instruction for bitwise logic or the breakpoint marker? -/
def Instruction.isExtension : Instruction → Bool
  | .arithmetic .and | .arithmetic .or | .arithmetic .complement => true
  | .flow .breakpoint => true
  | _ => false

namespace Assembly

def Options.extended : Options := { extensions := true }

/-! ### Instructions of plain statements -/

/-- Does the opcode make no instruction of the extensions? -/
def Opcode.isPlain : Opcode → Bool
  | .arithmetic command => !(Instruction.arithmetic command).isExtension
  | .plain i => !i.isExtension
  | _ => true

/-- The opcodes that do not need the extensions are plain. -/
theorem Opcode.isPlain_of_ofName? {text : String} {opcode : Opcode} (h : ofName? text = some opcode)
    (free : opcode.needsExtensions = false) : opcode.isPlain = true := by
  unfold ofName? at h
  split at h <;> cases h <;> first | rfl | cases free

section

variable {vs : Variables} {l : Line} {s : Statement} {lines : List Line} {ls : Labels} {i : Instruction}

/-- Without the extensions every line makes a statement with a plain opcode. -/
theorem Statement.isPlain_of_ofLine (h : Statement.ofLine {} vs l = .ok (some s)) :
    s.opcode.isPlain = true := by
  obtain ⟨name, tokens, opcode, spelled, known, fit⟩ := exists_opcode_of_ofLine h
  rw [fit.opcode_eq]
  apply Opcode.isPlain_of_ofName? known
  cases needs : opcode.needsExtensions with
  | false => rfl
  | true => simp [ofLine, spelled, readStatement, known, needs, Except.map] at h

theorem emitJump_plain {target : Label} {condition : Condition}
    (h : i ∈ (emitJump ls target condition).1) : i.isExtension = false := by
  cases condition <;>
    simp only [emitJump, emitInverted, List.mem_cons, List.not_mem_nil, or_false] at h
  case always | zero | negative => rw [h]; rfl
  case positive => rcases h with rfl | rfl | rfl | rfl <;> rfl
  case notPositive | notNegative | notZero => rcases h with rfl | rfl | rfl <;> rfl

theorem emitString_plain {text : String} (h : i ∈ emitString text) : i.isExtension = false := by
  simp only [emitString, emitCharacter, List.mem_append, List.mem_flatMap, List.mem_cons,
    List.not_mem_nil, or_false] at h
  rcases h with ⟨c, -, rfl | rfl | rfl | rfl | rfl⟩ | rfl <;> rfl

/-- A statement with a plain opcode becomes instructions that there are without the extensions. -/
theorem Statement.emit_plain (plain : s.opcode.isPlain = true) (h : i ∈ (s.emit ls).1) :
    i.isExtension = false := by
  cases s with
  | arithmetic command n? =>
      have base : (Instruction.arithmetic command).isExtension = false := by
        simpa [opcode, Opcode.isPlain] using plain
      cases n? with
      | none =>
          rw [List.mem_singleton.1 h]
          exact base
      | some n =>
          simp only [emit, emitArithmetic] at h
          split at h
          · cases h
          · rcases List.mem_pair.1 h with rfl | rfl
            · rfl
            · exact base
  | storeString text => exact emitString_plain h
  | jump condition name => exact emitJump_plain h
  | plain j =>
      rw [List.mem_singleton.1 h]
      simpa [opcode, Opcode.isPlain] using plain
  | store n? | retrieve n? =>
      cases n? <;> simp only [emit, List.mem_cons, List.not_mem_nil, or_false] at h
      · rw [h]
        rfl
      · rcases h with rfl | rfl | rfl <;> rfl
  | define name value => cases h
  | push n | copy n | slide n | label name | call name =>
      rw [List.mem_singleton.1 h]
      rfl

/-- Statements without extensions are lowered to instructions without extensions. -/
theorem emitAll_plain {statements : List Statement} (plain : ∀ s ∈ statements, s.opcode.isPlain = true)
    (h : i ∈ (emitAll ls statements).1) : i.isExtension = false := by
  induction statements generalizing ls with
  | nil => cases h
  | cons s rest ih =>
      rw [List.forall_mem_cons] at plain
      rcases List.mem_append.1 h with here | later
      · exact Statement.emit_plain plain.1 here
      · exact ih plain.2 later

namespace LineProgram

/-- Lines that are read without the extensions become instructions that there are without them. -/
theorem code_plain (h : i ∈ code (ofLines {} vs lines)) : i.isExtension = false := by
  refine emitAll_plain ?_ h
  intro s member
  obtain ⟨vs', l, -, read⟩ := exists_of_mem_ofLines (List.reduceOption_mem_iff.1 member)
  exact Statement.isPlain_of_ofLine read

end LineProgram

end

/-! ### Lowering with the extensions -/

section

variable {vs : Variables} {l : Line} {s? : Option Statement} {lines : List Line} {lowered : Lowered}

/-- A line that can be read without the extensions is read in the same way with them. -/
theorem Statement.ofLine_extended (h : Statement.ofLine {} vs l = .ok s?) :
    Statement.ofLine .extended vs l = .ok s? := by
  unfold ofLine at h ⊢
  split at h
  · exact h
  · exact h
  · next name tokens _ =>
      unfold readStatement at h ⊢
      cases known : Opcode.ofName? (Text.lowerText name) with
      | none => simp [known, Except.map] at h
      | some opcode =>
          cases needs : opcode.needsExtensions with
          | true => simp [known, needs, Except.map] at h
          | false => simpa [known, needs] using h
  · cases h

/-- Lines that can be read without the extensions are read alike with them. -/
theorem readStatements_extended (h : (readStatements {} vs lines).error? = none) :
    (readStatements .extended vs lines).error? = none ∧
      LineProgram.ofLines .extended vs lines = LineProgram.ofLines {} vs lines := by
  induction lines generalizing vs with
  | nil => exact ⟨rfl, rfl⟩
  | cons l rest ih =>
      obtain ⟨s?, read, others⟩ := readStatements_cons_error?.1 h
      have read' := Statement.ofLine_extended read
      obtain ⟨others', same⟩ := ih others
      refine ⟨readStatements_cons_error?.2 ⟨s?, read', others'⟩, ?_⟩
      rw [LineProgram.ofLines_cons read, LineProgram.ofLines_cons read', same]

theorem lower_extended (h : (lower {} lines).1 = .ok lowered) :
    (lower { options := .extended } lines).1 = .ok lowered := by
  obtain ⟨readable, closed, rfl⟩ := lower_eq_ok_iff.1 h
  obtain ⟨readable', same⟩ := readStatements_extended readable
  rw [lower_eq_ok_iff, same]
  exact ⟨readable', closed, rfl⟩

end

/-! ### Including with the extensions -/

section

variable {catalogue : Catalogue} {ctx ctx' : Context} {pending : List PendingLine} {lines : List Line}

/-- One library alone has a text of its own for the extensions. -/
theorem Library.source?_extended {name : String} (other : name ≠ "bitwise") :
    source? name true = source? name false := by
  unfold source? lines?
  split <;> first | rfl | exact absurd rfl other

theorem find_extended {name : String} (other : name ≠ "bitwise") :
    catalogue.find .extended name = catalogue.find {} name := by
  unfold Catalogue.find
  rw [show Library.source? name Options.extended.extensions = _ from Library.source?_extended other]

/-- What was included stays included. -/
theorem Expands.hasIncluded_mono (h : Expands catalogue ctx pending ctx' lines) {name : String}
    (included : ctx.hasIncluded name = true) : ctx'.hasIncluded name = true := by
  induction h with
  | done => exact included
  | kept _ _ _ ih => exact ih included
  | again _ _ _ _ _ ih => exact ih included
  | fresh _ _ _ _ _ _ ih =>
      apply ih
      exact Context.hasIncluded_markIncluded.2 (.inr included)

/-- Includes are followed in the same way, as long as that library is not among them. -/
theorem Expands.extended (h : Expands catalogue ctx pending ctx' lines) (options : ctx.options = {})
    (without : ctx'.hasIncluded "bitwise" = false) :
    Expands catalogue { ctx with options := .extended } pending { ctx' with options := .extended }
      lines := by
  induction h with
  | done ctx => exact .done _
  | kept read plain _ ih => exact .kept read plain (ih options without)
  | again read asked target already _ ih => exact .again read asked target already (ih options without)
  | @fresh ctx ctx' line rest tokens arguments name text lines read asked target new found onward ih =>
      have other : name ≠ "bitwise" := by
        rintro rfl
        rw [onward.hasIncluded_mono (Context.hasIncluded_markIncluded.2 (.inl rfl))] at without
        cases without
      refine .fresh read asked target new ?_ (ih options without)
      rw [options] at found
      exact (find_extended other).trans found

/-- A source that expands has included what the lines of its walk include. -/
theorem hasIncluded_iff_of_depthFirst {options : Options} {source text : String}
    {visited : List PendingLine}
    (walk : DepthFirst (catalogue.find options) [] (sourceLines source text) visited)
    (expanded : expandSource catalogue { options } source text = .ok (ctx', lines)) (name : String) :
    ctx'.hasIncluded name = true ↔ name ∈ includedNames visited := by
  have start : Tracks catalogue options { options } [] :=
    ⟨rfl, by simp [Context.hasIncluded, includedNames], nofun⟩
  rw [expandSource, pendingLines_eq, ← List.append_nil (sourceLines source text)] at expanded
  rcases walk.expand_append start with ⟨e, -, fails⟩ | ⟨ctx₁, tracks, gives⟩
  · rw [fails] at expanded
    cases expanded
  · rw [gives, expand] at expanded
    cases expanded
    exact tracks.names name

end

/-! ### Compilation with the extensions -/

/-- A source that compiles without the extensions has none of their instructions, and it compiles to the
    same text with them, unless the library for bitwise logic is included. -/
theorem extensions_conservative {catalogue : Catalogue} {text code : String}
    (compiled : compile catalogue {} text = .ok code) :
    (∃ instructions, parseProgram code = .ok instructions ∧
      ∀ i ∈ instructions, i.isExtension = false) ∧
    ((∀ visited, DepthFirst (catalogue.find {}) [] (sourceLines mainSource text) visited →
        "bitwise" ∉ includedNames visited) →
      compile catalogue { extensions := true } text = .ok code) := by
  obtain ⟨lowered, lower, rfl⟩ := map_eq_ok.1 compiled
  obtain ⟨ctx, lines, expanded, accepted⟩ := lowerSource_eq_ok_iff.1 lower
  constructor
  · refine ⟨lowered.instructions, ?_, ?_⟩
    · apply parseProgram_of_symbols
      rw [String.toList_ofList, symbols_render]
    · obtain ⟨-, -, rfl⟩ := lower_eq_ok_iff.1 accepted
      intro i member
      exact LineProgram.code_plain member
  · intro without
    obtain ⟨visited, walk⟩ := exists_depthFirst catalogue {} [] (sourceLines mainSource text)
    have included := hasIncluded_iff_of_depthFirst walk (expand_eq_ok_iff.2 expanded) "bitwise"
    have absent : ctx.hasIncluded "bitwise" = false := by
      rw [← Bool.not_eq_true, included]
      exact without visited walk
    have expanded' := expanded.extended rfl absent
    have lower' := lowerSource_eq_ok_iff.2 ⟨_, lines, expanded', lower_extended accepted⟩
    exact map_eq_ok.2 ⟨lowered, lower', rfl⟩

/-- A source that includes another one, but no library. -/
theorem extensions_conservative_sum :
    let catalogue := Catalogue.ofTexts [("sum", "add 2\noutn")]
    ∃ code instructions, compile catalogue {} "push 1\ninclude sum" = .ok code ∧
      parseProgram code = .ok instructions ∧ (∀ i ∈ instructions, i.isExtension = false) ∧
      compile catalogue { extensions := true } "push 1\ninclude sum" = .ok code := by
  intro catalogue
  let lines : List Line :=
    [⟨"main", 1, [.word "push", .integer 1]⟩, ⟨"sum", 1, [.word "add", .integer 2]⟩,
      ⟨"sum", 2, [.word "outn"]⟩]
  have push : tokenize "push 1".toList = .ok [.word "push", .integer 1] := by decide +kernel
  have inclusion : tokenize "include sum".toList = .ok [.word "include", .word "sum"] := by
    decide +kernel
  have add : tokenize "add 2".toList = .ok [.word "add", .integer 2] := by decide +kernel
  have write : tokenize "outn".toList = .ok [.word "outn"] := by decide +kernel
  have cut : pendingLines mainSource "push 1\ninclude sum" =
      [⟨"main", 1, "push 1".toList⟩, ⟨"main", 2, "include sum".toList⟩] := by decide +kernel
  have cut' : pendingLines "sum" "add 2\noutn" ++ [] =
      [⟨"sum", 1, "add 2".toList⟩, ⟨"sum", 2, "outn".toList⟩] := by decide +kernel
  have expanded : Expands catalogue {} (pendingLines mainSource "push 1\ninclude sum")
      { included := ["sum"] } lines := by
    rw [cut]
    refine @Expands.kept catalogue _ _ ⟨"main", 1, _⟩ _ _ _ push rfl ?_
    have asked : inclusion? [.word "include", .word "sum"] = some [.word "sum"] := by decide +kernel
    refine @Expands.fresh catalogue _ _ ⟨"main", 2, _⟩ _ _ _ _ "add 2\noutn" _ inclusion asked rfl rfl
      (by rfl) ?_
    rw [cut']
    refine @Expands.kept catalogue _ _ ⟨"sum", 1, _⟩ _ _ _ add rfl ?_
    exact @Expands.kept catalogue _ _ ⟨"sum", 2, _⟩ _ _ _ write rfl (.done _)
  have order : isSearchOrder lines [0, 1, 2] = true := by decide +kernel
  have reachable : reachableLines lines = lines := reachableLines_of_isSearchOrder order
  have lowered : (lowerSource catalogue {} "push 1\ninclude sum").1 =
      .ok ⟨[pushOf 1, pushOf 2, .arithmetic .add, .io .writeNumber], []⟩ := by
    refine lowerSource_eq_ok_iff.2 ⟨_, lines, expanded, ?_⟩
    rw [reachable]
    decide +kernel
  have compiled := congrArg (Except.map fun l : Lowered => String.ofList l.render) lowered
  obtain ⟨⟨instructions, read, plain⟩, same⟩ := extensions_conservative compiled
  refine ⟨_, instructions, compiled, read, plain, same ?_⟩
  intro visited walk
  rw [← hasIncluded_iff_of_depthFirst walk (expand_eq_ok_iff.2 expanded)]
  decide

end Assembly

end Whitespace

/-
Module: Whitespace.Proofs.ClosedPrograms
Purpose: Compiled programs are closed. Every label of their instructions leads to a place, so that no
  session over them fails for want of a label. With the exit at the end no place to go to, or to go back
  to, lies behind the program, so that no session runs off its end.
Main exports: Program.LabelsDefined, labelsDefined_lowered, Program.Enclosed,
  Program.enclosed_append_exit, Machine.Control.Within, Session.program_follow, Session.Enclosed,
  Session.Enclosed.follow, compiled_programs_closed
-/
import Whitespace.Proofs.History
import Whitespace.Proofs.InvisibleLines
import Whitespace.Proofs.ShakenLines

namespace Whitespace

/-! ### Labels -/

/-- Every label that an instruction of the program has leads to a place. -/
def Program.LabelsDefined (program : Program) : Prop :=
  ∀ place i l, program.instruction? place = some i → i.label? = some l →
    ∃ target, program.target? l = some target

namespace Assembly

/-- A reference in a program that defines the labels it uses is meant for a position. -/
theorem LineProgram.exists_referent {p : LineProgram} (closed : p.Closed) {k : Nat} {s : Statement}
    (line : p[k]? = some (some s)) {b : Branch} {r : Reference} (h : .branch b r ∈ s.symbolic) :
    ∃ t, p.referent? k r = some t := by
  cases r with
  | past => exact ⟨k + 1, rfl⟩
  | named name =>
      apply exists_labelPlace
      rcases Statement.defines_or_uses h with ⟨-, rfl⟩ | uses
      · exact List.mem_of_getElem? line
      · exact closed s name (List.mem_of_getElem? line) uses

/-- The code of lines that define the labels they use, followed by instructions without labels, has its
    labels defined. -/
theorem labelsDefined_lowered {p : LineProgram} {suffix : List Instruction} (wf : p.WellFormed)
    (closed : p.Closed) (unlabelled : ∀ i ∈ suffix, i.label? = none) :
    (Program.ofInstructions (p.code ++ suffix)).LabelsDefined := by
  have layout := layout_ofInstructions wf (unmarked_of_unlabelled unlabelled)
  intro place i l here label
  rw [Program.instruction?_ofInstructions] at here
  by_cases inside : place < p.code.length
  · rw [← LineProgram.place_of_length_le (Nat.le_refl _)] at inside
    rcases LineProgram.exists_line_of_lt_place inside with ⟨k, s, d, -, line, bound, rfl⟩
    have symbolic := List.getElem?_eq_getElem bound
    rw [code_append_getElem? suffix line symbolic] at here
    cases shape : s.symbolic[d] with
    | fixed j =>
        rw [shape] at here symbolic
        obtain rfl : j = i := Option.some.inj here
        rw [Statement.label?_of_fixed (wf k s line) (List.mem_of_getElem? symbolic)] at label
        cases label
    | branch b r =>
        rw [shape] at here symbolic
        obtain rfl : .flow (b.command (p.address k r)) = i := Option.some.inj here
        obtain rfl : p.address k r = l := by
          apply Option.some.inj
          exact (b.label?_command _).symm.trans label
        have member := List.mem_of_getElem? symbolic
        rcases LineProgram.exists_referent closed line member with ⟨t, referent⟩
        exact ⟨_, layout.target line member referent⟩
  · rw [List.getElem?_append_right (Nat.le_of_not_lt inside)] at here
    rw [unlabelled i (List.mem_of_getElem? here)] at label
    cases label

end Assembly

/-! ### Places -/

/-- The program holds an instruction after each that is no exit, and so do its labels. -/
structure Program.Enclosed (program : Program) : Prop where
  followed {place : Nat} {i : Instruction} : program.instruction? place = some i → i ≠ .flow .exit →
    place + 1 < program.size
  target_lt {l : Label} {place : Nat} : program.target? l = some place → place < program.size
  nonempty : 0 < program.size

/-- An exit at the end encloses the instructions before it. -/
theorem Program.enclosed_append_exit (instructions : List Instruction) :
    (ofInstructions (instructions ++ [.flow .exit])).Enclosed := by
  have followed : ∀ {place : Nat} {i : Instruction},
      (instructions ++ [.flow .exit])[place]? = some i → i ≠ .flow .exit →
        place + 1 < (instructions ++ [Instruction.flow .exit]).length := by
    intro place i here other
    rw [List.length_append, List.length_singleton]
    apply Nat.succ_lt_succ
    by_contra behind
    rw [List.getElem?_append_right (Nat.le_of_not_lt behind)] at here
    exact other (List.mem_singleton.1 (List.mem_of_getElem? here))
  constructor
  · intro place i here other
    rw [instruction?_ofInstructions] at here
    rw [size_ofInstructions]
    exact followed here other
  · intro l place target
    rw [target?_ofInstructions, positionAfterLast?_eq_some_iff] at target
    rcases target with ⟨k, i, rfl, here, mark, -⟩
    rw [size_ofInstructions]
    apply followed here
    rintro rfl
    cases mark
  · rw [size_ofInstructions, List.length_append]
    exact Nat.succ_pos _

namespace Machine

/-- The place of the next instruction and the places to go back to lie before a bound. -/
structure Control.Within (bound : Nat) (c : Control) : Prop where
  pc : c.pc < bound
  calls : ∀ place ∈ c.calls, place < bound

/-- In an enclosed program control stays within. -/
theorem Control.Within.moves {program : Program} (enclosed : program.Enclosed) {c c' : Control}
    {i : Instruction} (within : c.Within program.size) (here : program.instruction? c.pc = some i)
    (moves : c.Moves program i c') : c'.Within program.size := by
  cases moves with
  | onward _ _ other goes =>
      refine ⟨?_, within.calls⟩
      rcases goes with rfl | ⟨l, target⟩
      · exact enclosed.followed here other
      · exact enclosed.target_lt target
  | enter target =>
      refine ⟨enclosed.target_lt target, ?_⟩
      intro place member
      rcases List.mem_cons.1 member with rfl | member
      · exact enclosed.followed here nofun
      · exact within.calls place member
  | leave called =>
      constructor
      · apply within.calls
        rw [called]
        exact List.mem_cons_self
      · intro place member
        apply within.calls
        rw [called]
        exact List.mem_cons_of_mem _ member
  | halt => exact ⟨within.pc, within.calls⟩

section

variable {program : Program} {m m' : Machine} {f : Failure}

/-- A step runs off the end where there is no instruction. -/
theorem instruction?_of_noTermination (failed : m.step program = (.failed f, m'))
    (fault : f.fault = .noTermination) : program.instruction? m.state.pc = none := by
  have cases := step_cases program m
  rw [failed] at cases
  cases cases with
  | past _ here => exact here
  | faulted _ _ performed =>
      subst fault
      rcases perform_faulted_ofControl performed rfl with
        ⟨command, l, -, -, -, other⟩ | ⟨-, -, other⟩
      · cases other
      · cases other

/-- A step lacks a label that its instruction has and that leads to no place. -/
theorem exists_of_undefinedLabel {l : Label} (failed : m.step program = (.failed f, m'))
    (fault : f.fault = .undefinedLabel l) :
    ∃ i, program.instruction? m.state.pc = some i ∧ i.label? = some l ∧ program.target? l = none := by
  have cases := step_cases program m
  rw [failed] at cases
  cases cases with
  | past => cases fault
  | @faulted i _ _ _ here performed =>
      subst fault
      rcases perform_faulted_ofControl performed rfl with
        ⟨command, l', rfl, label, target, same⟩ | ⟨-, -, other⟩
      · cases same
        exact ⟨_, here, label, target⟩
      · cases other

end

end Machine

/-! ### Sessions -/

namespace Session

variable {s : Session} {x : Moment} {events : List Event} {f : Machine.Failure}

/-- A history changes nothing of the program but its breakpoints. -/
theorem program_follow (s : Session) (events : List Event) :
    ∃ breakpoints, (s.follow events).session.program = { s.program with breakpoints } := by
  apply follow_invariant (P := fun t => ∃ breakpoints, t.program = { s.program with breakpoints })
  · exact ⟨s.program.breakpoints, rfl⟩
  · rintro x e - ⟨breakpoints, program⟩
    rcases (changed_after x e).program_eq with ⟨breakpoints', program'⟩
    refine ⟨breakpoints', ?_⟩
    rw [program', program]

/-- The program is enclosed, and control is within it. -/
structure Enclosed (s : Session) : Prop where
  program : s.program.Enclosed
  control : s.state.control.Within s.program.size

/-- Control stays within an enclosed program through every history. -/
theorem Enclosed.follow (enclosed : s.Enclosed) (events : List Event) :
    (s.follow events).session.Enclosed := by
  apply follow_invariant (P := Enclosed) enclosed
  rintro x e - ⟨program, control⟩
  have changed := changed_after x e
  rcases changed.program_eq with ⟨breakpoints, same⟩
  have size : (x.after e).session.program.size = x.session.program.size := by
    rw [same]
    rfl
  constructor
  · rw [same]
    exact ⟨program.followed, program.target_lt, program.nonempty⟩
  · rw [size]
    rcases changed.control_cases with kept | start | ⟨i, here, moves⟩
    · rw [kept]
      exact control
    · rw [start]
      exact ⟨program.nonempty, nofun⟩
    · exact control.moves program here moves

theorem step_of_fails (fails : x.Fails f) :
    ∃ m, x.session.machine.step x.session.program = (.failed f, m) := by
  rcases fails with ⟨run, -, failed⟩
  exact ⟨_, Prod.ext (turn_failed failed) rfl⟩

/-- Where the labels of the program are defined no run fails for want of one. -/
theorem ne_undefinedLabel_of_fails (defined : x.session.program.LabelsDefined) (fails : x.Fails f)
    (l : Label) : f.fault ≠ .undefinedLabel l := by
  intro fault
  rcases step_of_fails fails with ⟨m, failed⟩
  rcases Machine.exists_of_undefinedLabel failed fault with ⟨i, here, label, target⟩
  rcases defined _ i l here label with ⟨place, target'⟩
  rw [target] at target'
  cases target'

/-- A run over an enclosed program does not run off its end. -/
theorem Enclosed.ne_noTermination (enclosed : x.session.Enclosed) (fails : x.Fails f) :
    f.fault ≠ .noTermination := by
  intro fault
  rcases step_of_fails fails with ⟨m, failed⟩
  have past := Machine.instruction?_of_noTermination failed fault
  have bound : x.session.state.pc < x.session.program.size := enclosed.control.pc
  rw [Program.instruction?, Array.getElem?_eq_none_iff] at past
  exact absurd bound (Nat.not_lt.2 past)

theorem labelsDefined_follow (defined : s.program.LabelsDefined) (events : List Event) :
    (s.follow events).session.program.LabelsDefined := by
  rcases program_follow s events with ⟨breakpoints, program⟩
  rw [program]
  exact defined

end Session

/-! ### Compiled programs -/

/-- A text whose symbols are the code of instructions holds their program. -/
theorem Program.ofText_of_symbols {instructions : List Instruction} {text : String}
    (spelled : symbols text.toList = encodeProgram instructions) :
    ofText text = .ok (ofInstructions instructions) := by
  unfold ofText
  rw [parseProgram_of_symbols spelled]
  rfl

namespace Assembly

variable {catalogue : Catalogue} {options : Options} {text code : String}

/-- The text of a compiled program is read back. -/
theorem ofText_render (lowered : Lowered) :
    Program.ofText (String.ofList lowered.render) = .ok (.ofInstructions lowered.instructions) := by
  apply Program.ofText_of_symbols
  rw [String.toList_ofList, symbols_render]

theorem ofText_render_exit (lowered : Lowered) :
    Program.ofText (String.ofList (lowered.render ++ spell (Instruction.flow .exit).encode)) =
      .ok (.ofInstructions (lowered.instructions ++ [.flow .exit])) := by
  apply Program.ofText_of_symbols
  rw [String.toList_ofList, symbols_render_append_exit]

/-- Instructions from lowering have their labels defined, whatever instructions without labels follow. -/
theorem labelsDefined_of_lowerSource {lowered : Lowered} {suffix : List Instruction}
    (compiled : (lowerSource catalogue { options } text).1 = .ok lowered)
    (unlabelled : ∀ i ∈ suffix, i.label? = none) :
    (Program.ofInstructions (lowered.instructions ++ suffix)).LabelsDefined := by
  rcases lowerSource_eq_ok_iff.1 compiled with ⟨ctx, lines, -, accepted⟩
  rcases lower_eq_ok_iff.1 accepted with ⟨-, closed, rfl⟩
  have wf := LineProgram.wellFormed_ofLines options [] (reachableLines lines)
  exact labelsDefined_lowered wf closed unlabelled

/-- The text of a compiled program with the exit appended is read back. The labels of the program are
    defined, and it is enclosed. -/
theorem exists_program_of_compileWithExit (compiled : compileWithExit catalogue options text = .ok code) :
    ∃ program, Program.ofText code = .ok program ∧ program.LabelsDefined ∧ program.Enclosed := by
  rw [compileWithExit_eq] at compiled
  rcases map_eq_ok.1 compiled with ⟨lowered, lower, rfl⟩
  refine ⟨.ofInstructions (lowered.instructions ++ [.flow .exit]), ofText_render_exit lowered, ?_, ?_⟩
  · apply labelsDefined_of_lowerSource lower
    intro i member
    rw [List.mem_singleton.1 member]
    rfl
  · exact Program.enclosed_append_exit lowered.instructions

/-- The text of a compiled program is read back, and the labels of the program are defined. -/
theorem exists_program_of_compile (compiled : compile catalogue options text = .ok code) :
    ∃ program, Program.ofText code = .ok program ∧ program.LabelsDefined := by
  rcases map_eq_ok.1 compiled with ⟨lowered, lower, rfl⟩
  refine ⟨.ofInstructions lowered.instructions, ofText_render lowered, ?_⟩
  have defined := labelsDefined_of_lowerSource lower (List.forall_mem_nil _)
  rw [List.append_nil] at defined
  exact defined

/-- Compiled programs are closed. The text with the exit appended is read back as a program on which no
    session ever fails for want of a label or by running off the end, whatever its input and its history;
    the next instruction always exists. Without the exit the program may end, but it lacks no label. -/
theorem compiled_programs_closed :
    (∀ code, compileWithExit catalogue options text = .ok code →
      ∃ program, Program.ofText code = .ok program ∧ ∀ source events,
        let x := (Session.start program source {}).follow events
        (∃ i, program.instruction? x.session.state.pc = some i) ∧
          ∀ f, x.Fails f → f.fault ≠ .noTermination ∧ ∀ l, f.fault ≠ .undefinedLabel l) ∧
    ∀ code, compile catalogue options text = .ok code →
      ∃ program, Program.ofText code = .ok program ∧ ∀ source events f,
        ((Session.start program source {}).follow events).Fails f →
          ∀ l, f.fault ≠ .undefinedLabel l := by
  constructor
  · intro code compiled
    rcases exists_program_of_compileWithExit compiled with ⟨program, read, defined, enclosed⟩
    refine ⟨program, read, ?_⟩
    intro source events x
    have start : (Session.start program source {}).Enclosed :=
      ⟨enclosed, ⟨enclosed.nonempty, nofun⟩⟩
    have within := start.follow events
    constructor
    · rcases Session.program_follow (Session.start program source {}) events with ⟨breakpoints, same⟩
      have bound : x.session.state.pc < x.session.program.size := within.control.pc
      rw [show x.session.program = _ from same] at bound
      exact ⟨_, Array.getElem?_eq_getElem bound⟩
    · intro f fails
      refine ⟨within.ne_noTermination fails, ?_⟩
      exact Session.ne_undefinedLabel_of_fails (Session.labelsDefined_follow defined events) fails
  · intro code compiled
    rcases exists_program_of_compile compiled with ⟨program, read, defined⟩
    refine ⟨program, read, ?_⟩
    intro source events f fails
    exact Session.ne_undefinedLabel_of_fails (Session.labelsDefined_follow defined events) fails

/-- A source that calls a routine at its very end, where the call would also go back to. -/
theorem compiled_programs_closed_call :
    ∃ code program, compileWithExit .empty {} "call end\nlabel end" = .ok code ∧
      Program.ofText code = .ok program ∧ ∀ source events f,
        ((Session.start program source {}).follow events).Fails f → f.fault ≠ .noTermination := by
  let lines : List Line :=
    [⟨"main", 1, [.word "call", .word "end"]⟩, ⟨"main", 2, [.word "label", .word "end"]⟩]
  have call : tokenize "call end".toList = .ok [.word "call", .word "end"] := by decide +kernel
  have label : tokenize "label end".toList = .ok [.word "label", .word "end"] := by decide +kernel
  have cut : pendingLines mainSource "call end\nlabel end" =
      [⟨"main", 1, "call end".toList⟩, ⟨"main", 2, "label end".toList⟩] := by decide +kernel
  have expanded : Expands .empty {} (pendingLines mainSource "call end\nlabel end") {} lines := by
    rw [cut]
    have last := @Expands.kept .empty _ _ ⟨"main", 2, _⟩ _ _ _ label rfl (.done {})
    exact @Expands.kept .empty _ _ ⟨"main", 1, _⟩ _ _ _ call rfl last
  have first : Live (lines.map Line.conduct) 0 := .first rfl
  have second : Live (lines.map Line.conduct) 1 := .following first rfl (by decide +kernel) rfl
  have reachable : reachableLines lines = lines := by
    have kept : keptPlaces lines 0 = true ∧ keptPlaces lines 1 = true :=
      ⟨keptPlaces_iff.2 (.inr first), keptPlaces_iff.2 (.inr second)⟩
    rw [reachableLines_eq_pick]
    simp only [lines, pick, kept, if_true]
  have lowered : (lowerSource .empty {} "call end\nlabel end").1 =
      .ok ⟨[.flow (.call ⟨0⟩), .flow (.mark ⟨0⟩)], []⟩ := by
    refine lowerSource_eq_ok_iff.2 ⟨{}, lines, expanded, ?_⟩
    rw [reachable]
    decide +kernel
  have compiled := compileWithExit_of_lowerSource lowered
  rcases compiled_programs_closed.1 _ compiled with ⟨program, read, closed⟩
  refine ⟨_, program, compiled, read, ?_⟩
  intro source events f fails
  exact ((closed source events).2 f fails).1

end Assembly

end Whitespace

/-
Module: Whitespace.Proofs.LineSimulation
Purpose: Lowering is correct. Whatever the machine of lines does, the machine of instructions does with
  the lowered program: after every line it stands at the code of the line that comes next, its calls go
  back to the codes of the lines that the calls of the lines go back to, and all else is the same. The
  proof carries out the code of one statement at a time, and puts the steps together by induction.
Main exports: simulate_statement, LineProgram.step?_simulated, LineProgram.run?_simulated,
  lower_simulates_lines
-/
import Whitespace.Proofs.AcceptedLines
import Whitespace.Proofs.Obedience

namespace Whitespace.Assembly

open Whitespace.Configuration

/-! ### Single statements -/

section

variable {program : Program} {c d : Configuration}

/-- A given operand that the lowering leaves out changes nothing. -/
theorem instruct_neutral {command : ArithmeticCommand} {n : Int} (h : neutral? command = some n)
    (obeyed : LineProgram.instruct (c.push n) (.arithmetic command) = some d) : d = c.next := by
  cases pop : c.pop? with
  | none =>
      have empty : c.stack.pop? = none := by
        unfold Configuration.pop? at pop
        simpa using pop
      cases command <;>
        simp [LineProgram.instruct, obey, machine, push, Machine.perform_arithmetic, Machine.runArithmetic,
          Machine.Stack.popTwo?, empty, Machine.allOrNothing, Except.map, neutral?] at obeyed h
  | some popped =>
      obtain ⟨a, below⟩ := popped
      obtain rfl := pop?_eq_some_iff.1 pop
      have result : command ≠ .complement ∧ Machine.compute a n command = .ok a := by
        cases command <;> simp [neutral?] at h <;> subst h <;> simp [Machine.compute]
      rw [LineProgram.instruct, obey_arithmetic _ _ _ result.1 result.2] at obeyed
      exact (Option.some.inj obeyed).symm

/-- The code of an arithmetic statement pushes its operand, if it has one, and does what the statement means.
    -/
theorem reaches_arithmetic {command : ArithmeticCommand} {n? : Option Int} {f : Nat → Nat}
    (code : CodeAt program (f c.place) (emitArithmetic command n?))
    (following : f (c.place + 1) = f c.place + (emitArithmetic command n?).length)
    (running : c.halted = false)
    (obeyed : LineProgram.instruct (n?.elim c c.push) (.arithmetic command) = some d) :
    Reaches program (c.relocate f) (d.relocate f) := by
  cases n? with
  | none =>
      refine .obey (c := c.relocate f) code running ?_ .refl
      exact obey_relocate rfl following obeyed
  | some n =>
      by_cases neutral : neutral? command = some n
      · -- nothing is emitted, and the next line has the same place
        simp only [emitArithmetic, if_pos neutral] at following
        obtain rfl := instruct_neutral neutral obeyed
        have same : c.next.relocate f = c.relocate f := by
          simp only [relocate, next, following, List.length_nil, Nat.add_zero]
        rw [same]
        exact .refl
      · simp only [emitArithmetic, if_neg neutral] at code following
        refine .obey (c := c.relocate f) code running (obey_pushOf _ _ _) ?_
        have moved := obey_elsewhere program rfl obeyed (c.calls.map f) (f c.place + 1)
        refine .obey code.tail running moved.1 ?_
        have same : { d with calls := c.calls.map f, place := f c.place + 1 + 1 } = d.relocate f := by
          obtain ⟨-, calls, place⟩ := moved
          simp only [relocate, calls, place]
          simp only [Option.elim_some, push_place, following, List.length_cons, List.length_nil]
          rfl
        rw [same]
        exact .refl

/-- Characters are stored one after another, each by the code of its own. -/
theorem reaches_characters {chars : List Char} {a : Int} {heap : Machine.Heap}
    (code : CodeAt program c.place (chars.flatMap emitCharacter)) (running : c.halted = false)
    (written : writeText c.heap a chars = some heap) :
    Reaches program (c.push a)
      ({ c with heap, place := c.place + (chars.flatMap emitCharacter).length }.push
        (a + chars.length)) := by
  induction chars generalizing c a with
  | nil =>
      cases written
      simp only [List.flatMap_nil, List.length_nil, Nat.add_zero, Int.natCast_zero, Int.add_zero]
      exact .refl
  | cons ch rest ih =>
      unfold writeText at written
      cases checked : Machine.checkedAddress a with
      | error f => simp [checked] at written
      | ok cell =>
          simp only [checked] at written
          rw [List.flatMap_cons] at code
          have first := code.left
          have added := obey_arithmetic program
            { c with heap := c.heap.insert cell ch.toNat, place := c.place + 4 } .add
            (a := a) (b := 1) (by decide) rfl
          refine .obey first running (obey_duplicate _ _ _) ?_
          refine .obey first.tail running (obey_pushOf _ _ _) ?_
          refine .obey first.tail.tail running (obey_store _ (c.push a).next.next checked) ?_
          refine .obey first.tail.tail.tail running (obey_pushOf _ _ _) ?_
          refine .obey first.tail.tail.tail.tail running added ?_
          have others := ih (c := { c with heap := c.heap.insert cell ch.toNat, place := c.place + 5 })
            code.right running written
          have place : c.place + ((ch :: rest).flatMap emitCharacter).length =
              c.place + 5 + (rest.flatMap emitCharacter).length := by
            simp only [List.flatMap_cons, emitCharacter, List.length_append, List.length_cons,
              List.length_nil]
            omega
          have address : a + (ch :: rest).length = a + 1 + rest.length := by
            simp only [List.length_cons]
            omega
          rw [place, address]
          exact others

/-- The last instruction of a jump goes where the line goes, if it tests the same. -/
theorem reaches_branch {f : Nat → Nat} {t n : Nat} {taken : Prop} [Decidable taken] {holds : Bool}
    (same : taken ↔ holds = true) (following : f (c.place + 1) = f c.place + (n + 1)) :
    Reaches program (if taken then (c.within f n).goto (f t) else (c.within f n).next)
      ((if holds then c.goto t else c.next).relocate f) := by
  by_cases h : taken
  · rw [if_pos h, if_pos (same.1 h)]
    exact .refl
  · rw [if_neg h, if_neg (fun holds => h (same.2 holds))]
    have fallen : c.next.relocate f = (c.within f n).next := by
      simp only [relocate, next, within, following, Nat.add_assoc]
    rw [fallen]
    exact .refl

/-- A jump that is passed over when the opposite holds goes where the line goes. -/
theorem reaches_unless {f : Nat → Nat} {t : Nat} {opposite : Prop} [Decidable opposite] {holds : Bool}
    (same : opposite ↔ holds = false)
    (jump : Reaches program (c.within f 1) ((c.goto t).relocate f)) :
    Reaches program (if opposite then (c.relocate f).goto (f (c.place + 1)) else c.within f 1)
      ((if holds then c.goto t else c.next).relocate f) := by
  by_cases h : opposite
  · rw [if_pos h, same.1 h]
    exact .refl
  · have taken : holds = true := by
      simpa using fun skipped => h (same.2 skipped)
    rw [if_neg h, taken]
    exact jump

variable {p : LineProgram} {address : Nat → Reference → Label}

/-- A conditional jump takes the top and goes to its label if the condition holds of it. -/
theorem perform_conditional {condition : Condition} {name : String}
    (conditional : condition ≠ .always) (performed : p.perform c (.jump condition name) = some d) :
    ∃ (v : Int) (e : Configuration) (t : Nat), c = e.push v ∧ p.labelPlace? name = some t ∧
      d = if condition.holds v then e.goto t else e.next := by
  cases condition with
  | always => exact absurd rfl conditional
  | _ =>
      unfold LineProgram.perform at performed
      cases pop : c.pop? with
      | none => simp [pop] at performed
      | some popped =>
          obtain ⟨v, e⟩ := popped
          cases named : p.labelPlace? name with
          | none => simp [named] at performed
          | some t =>
              simp only [pop, named, Option.some.injEq] at performed
              exact ⟨v, e, t, pop?_eq_some_iff.1 pop, rfl, performed.symm⟩

/-- A jump is carried out by the code of its condition. -/
theorem simulate_jump (layout : Layout program p address) {condition : Condition} {name : String}
    (line : p[c.place]? = some (some (.jump condition name))) (running : c.halted = false)
    (performed : p.perform c (.jump condition name) = some d) :
    Reaches program (c.relocate p.place) (d.relocate p.place) := by
  have code := layout.codeAt line
  have following := LineProgram.place_succ line
  by_cases always : condition = .always
  · subst always
    unfold LineProgram.perform at performed
    rw [Option.map_eq_some_iff] at performed
    obtain ⟨t, named, rfl⟩ := performed
    have target := layout.target (b := .jump) (r := .named name) line (.head _) named
    exact .obey code running (obey_jump target) .refl
  obtain ⟨v, e, t, rfl, named, rfl⟩ := perform_conditional always performed
  have target : program.target? (address e.place (.named name)) = some (p.place t) := by
    obtain ⟨b, mem⟩ : ∃ b, .branch b (.named name) ∈ (Statement.jump condition name).symbolic := by
      cases condition <;> simp [Statement.symbolic, Condition.symbolic]
    exact layout.target line mem named
  cases condition with
  | always => exact absurd rfl always
  | zero =>
      refine .obey code running (obey_jumpZero (c := e.within p.place 0) target v) ?_
      exact reaches_branch (by simp [Condition.holds]) following
  | negative =>
      refine .obey code running (obey_jumpNegative (c := e.within p.place 0) target v) ?_
      exact reaches_branch (by simp [Condition.holds]) following
  | positive =>
      refine .obey code running (obey_pushOf _ _ _) ?_
      refine .obey code.tail running (obey_swap _ (e.within p.place 1) v 0) ?_
      refine .obey code.tail.tail running (obey_arithmetic _ (e.within p.place 2) .subtract (by decide) rfl) ?_
      refine .obey code.tail.tail.tail running (obey_jumpNegative (c := e.within p.place 3) target (0 - v)) ?_
      exact reaches_branch (by simp [Condition.holds]) following
  | notPositive =>
      refine .obey code running (obey_pushOf _ _ _) ?_
      refine .obey code.tail running (obey_arithmetic _ (e.within p.place 1) .subtract (by decide) rfl) ?_
      refine .obey code.tail.tail running (obey_jumpNegative (c := e.within p.place 2) target (v - 1)) ?_
      exact reaches_branch (by simp [Condition.holds]; omega) following
  | notNegative =>
      have past := layout.target (b := .jumpNegative) (r := .past) line (.head _) rfl
      refine .obey code running (obey_jumpNegative (c := e.within p.place 0) past v) ?_
      have jump : Reaches program (e.within p.place 1) ((e.goto t).relocate p.place) :=
        .obey code.tail running (obey_jump target) .refl
      exact reaches_unless (by simp [Condition.holds]) jump
  | notZero =>
      have past := layout.target (b := .jumpZero) (r := .past) line (.head _) rfl
      refine .obey code running (obey_jumpZero (c := e.within p.place 0) past v) ?_
      have jump : Reaches program (e.within p.place 1) ((e.goto t).relocate p.place) :=
        .obey code.tail running (obey_jump target) .refl
      exact reaches_unless (by simp [Condition.holds]) jump

/-! ### Steps and runs of lines -/

theorem numbered_fixed (numbers : Reference → Label) (code : List Instruction) :
    (code.map Symbolic.fixed).map (Symbolic.numbered numbers) = code := by
  rw [List.map_map]
  exact List.map_id code

/-- A statement that is one instruction without a label is carried out by it. -/
theorem simulate_single (layout : Layout program p address) {s : Statement} {i : Instruction}
    (single : s.symbolic = [.fixed i]) (unlabelled : i.label? = none)
    (line : p[c.place]? = some (some s)) (running : c.halted = false)
    (performed : LineProgram.instruct c i = some d) :
    Reaches program (c.relocate p.place) (d.relocate p.place) := by
  have code := layout.codeAt line
  have following := LineProgram.place_succ line
  rw [single] at code following
  refine .obey (c := c.relocate p.place) code running ?_ .refl
  exact obey_relocate unlabelled following performed

/-- The code of a stored string writes its characters and the zero after them, cell by cell. -/
theorem simulate_storeString (layout : Layout program p address) {text : String}
    (line : p[c.place]? = some (some (.storeString text))) (running : c.halted = false)
    (performed : p.perform c (.storeString text) = some d) :
    Reaches program (c.relocate p.place) (d.relocate p.place) := by
  have code := layout.codeAt line
  have following := LineProgram.place_succ line
  unfold LineProgram.perform at performed
  cases pop : c.pop? with
  | none => simp [pop] at performed
  | some popped =>
      obtain ⟨a, e⟩ := popped
      obtain rfl := pop?_eq_some_iff.1 pop
      simp only [pop?_push, Option.map_eq_some_iff] at performed
      obtain ⟨heap, written, rfl⟩ := performed
      unfold Statement.symbolic at code following
      rw [numbered_fixed] at code
      rw [List.length_map] at following
      have stored := reaches_characters (c := e.relocate p.place) code.left running written
      refine stored.trans (Reaches.obey code.right running (obey_discard _ _ _) ?_)
      have place : p.place (e.place + 1) =
          p.place e.place + ((text.toList ++ ['\x00']).flatMap emitCharacter).length + 1 := by
        rw [push_place] at following
        rw [following, emitString, List.length_append, List.length_singleton, Nat.add_assoc]
      simp only [relocate, next, place]
      exact .refl

/-- The code of a store with an address puts the address below the value first. -/
theorem simulate_store (layout : Layout program p address) {n : Int}
    (line : p[c.place]? = some (some (.store (some n)))) (running : c.halted = false)
    (performed : p.perform c (.store (some n)) = some d) :
    Reaches program (c.relocate p.place) (d.relocate p.place) := by
  have code := layout.codeAt line
  have following := LineProgram.place_succ line
  unfold LineProgram.perform at performed
  cases pop : c.pop? with
  | none => simp [pop] at performed
  | some popped =>
      obtain ⟨value, e⟩ := popped
      obtain rfl := pop?_eq_some_iff.1 pop
      cases checked : Machine.checkedAddress n with
      | error f => simp [checked] at performed
      | ok cell =>
          simp only [pop?_push, checked, Option.some.injEq] at performed
          subst performed
          refine .obey code running (obey_pushOf _ _ _) ?_
          refine .obey code.tail running (obey_swap _ (e.within p.place 1) value n) ?_
          refine .obey code.tail.tail running (obey_store _ (e.within p.place 2) checked) ?_
          rw [push_place] at following
          simp only [relocate, within, next, following]
          exact .refl

/-- The code of a retrieve with an address pushes the address first. -/
theorem simulate_retrieve (layout : Layout program p address) {n : Int}
    (line : p[c.place]? = some (some (.retrieve (some n)))) (running : c.halted = false)
    (performed : p.perform c (.retrieve (some n)) = some d) :
    Reaches program (c.relocate p.place) (d.relocate p.place) := by
  have code := layout.codeAt line
  have following := LineProgram.place_succ line
  unfold LineProgram.perform at performed
  cases checked : Machine.checkedAddress n with
  | error f => simp [checked] at performed
  | ok cell =>
      simp only [checked, Option.map_eq_some_iff] at performed
      obtain ⟨value, found, rfl⟩ := performed
      refine .obey (c := c.relocate p.place) code running (obey_pushOf _ _ _) ?_
      refine .obey code.tail running (obey_retrieve _ (c.within p.place 1) checked found) ?_
      simp only [relocate, within, next, push_place, following]
      exact .refl

/-- The code of a statement does what the statement does. -/
theorem simulate_statement (layout : Layout program p address) {s : Statement} (wf : s.WellFormed)
    (line : p[c.place]? = some (some s)) (running : c.halted = false)
    (performed : p.perform c s = some d) :
    Reaches program (c.relocate p.place) (d.relocate p.place) := by
  have code := layout.codeAt line
  have following := LineProgram.place_succ line
  cases s with
  | push n =>
      cases performed
      refine .obey (c := c.relocate p.place) code running (obey_pushOf _ _ _) ?_
      simp only [relocate, next, push_place, following]
      exact .refl
  | copy n => exact simulate_single layout rfl rfl line running performed
  | slide n => exact simulate_single layout rfl rfl line running performed
  | arithmetic command n? =>
      unfold Statement.symbolic at code following
      rw [numbered_fixed] at code
      rw [List.length_map] at following
      apply reaches_arithmetic code following running
      cases n? <;> exact performed
  | store n? =>
      cases n? with
      | none => exact simulate_single layout rfl rfl line running performed
      | some n => exact simulate_store layout line running performed
  | retrieve n? =>
      cases n? with
      | none => exact simulate_single layout rfl rfl line running performed
      | some n => exact simulate_retrieve layout line running performed
  | storeString text => exact simulate_storeString layout line running performed
  | label name =>
      cases performed
      obtain ⟨t, named⟩ := LineProgram.exists_labelPlace (List.mem_of_getElem? line)
      have target := layout.target (b := .mark) (r := .named name) line (.head _) named
      refine .obey (c := c.relocate p.place) code running (obey_mark target) ?_
      simp only [relocate, next, following]
      exact .refl
  | call name =>
      unfold LineProgram.perform at performed
      rw [Option.map_eq_some_iff] at performed
      obtain ⟨t, named, rfl⟩ := performed
      have target := layout.target (b := .call) (r := .named name) line (.head _) named
      refine .obey (c := c.relocate p.place) code running (obey_call target) ?_
      simp only [relocate, List.map_cons, following]
      exact .refl
  | jump condition name => exact simulate_jump layout line running performed
  | define name value =>
      cases performed
      simp only [relocate, next, following]
      exact .refl
  | plain i => exact simulate_single layout rfl wf line running performed

/-- One line is carried out by the instructions of its code. -/
theorem LineProgram.step?_simulated (layout : Layout program p address) (wf : p.WellFormed)
    (stepped : p.step? c = some d) : Reaches program (c.relocate p.place) (d.relocate p.place) := by
  unfold LineProgram.step? at stepped
  cases running : c.halted with
  | true =>
      rw [running, if_pos rfl] at stepped
      cases stepped
      exact .refl
  | false =>
      simp only [running, Bool.false_eq_true, if_false] at stepped
      cases line : p[c.place]? with
      | none => simp [line] at stepped
      | some s? =>
          rw [line] at stepped
          cases s? with
          | none =>
              cases stepped
              have following := LineProgram.place_succ_none line
              simp only [relocate, next, following]
              exact .refl
          | some s => exact simulate_statement layout (wf _ s line) line running stepped

/-- Any number of lines is carried out by the instructions of their codes. -/
theorem LineProgram.run?_simulated (layout : Layout program p address) (wf : p.WellFormed) {n : Nat}
    (ran : p.run? n c = some d) : Reaches program (c.relocate p.place) (d.relocate p.place) := by
  induction n generalizing c with
  | zero =>
      cases ran
      exact .refl
  | succ n ih =>
      unfold LineProgram.run? at ran
      rw [Option.bind_eq_some_iff] at ran
      obtain ⟨e, stepped, rest⟩ := ran
      exact (step?_simulated layout wf stepped).trans (ih rest)

end

/-! ### Lowered lines -/

/-- Lowering is correct: after any number of lines that do not fail, the machine that runs the lowered
    instructions stands at the code of the line to come, and everything it has in common with the lines
    is the same. -/
theorem lower_simulates_lines {options : Options} {lines : List Line} {lowered : Lowered}
    (accepted : (lower { options } lines).1 = .ok lowered) {port : Input.Port} {n : Nat}
    {c : Configuration}
    (ran : LineProgram.run? (.ofLines options [] lines) n { input := port } = some c) :
    ∃ m : Machine, Machine.Runs (.ofInstructions lowered.instructions) { input := port } m ∧
      m.configuration = c.relocate (LineProgram.place (.ofLines options [] lines)) := by
  obtain ⟨-, -, rfl⟩ := lower_eq_ok_iff.1 accepted
  have wf := LineProgram.wellFormed_ofLines options [] lines
  have layout := layout_ofInstructions wf fun _ => List.not_mem_nil
  rw [List.append_nil] at layout
  exact Machine.runs_of_reaches (LineProgram.run?_simulated layout wf ran) rfl

def countdown : List Line :=
  [⟨"main", 1, [.word "push", .integer 2]⟩, ⟨"main", 2, [.word "label", .word "again"]⟩,
    ⟨"main", 3, [.word "sub", .integer 1]⟩, ⟨"main", 4, [.word "dup"]⟩,
    ⟨"main", 5, [.word "jumpp", .word "again"]⟩]

/-- After eight lines the countdown has ended, and the machine stands behind its nine instructions. -/
theorem lower_simulates_countdown :
    ∃ m : Machine,
      Machine.Runs
        (.ofInstructions
          [pushOf 2, .flow (.mark ⟨0⟩), pushOf 1, .arithmetic .subtract, .stack .duplicate, pushOf 0,
            .stack .swap, .arithmetic .subtract, .flow (.jumpNegative ⟨0⟩)])
        { input := { source := .ofText "" } } m ∧
      m.configuration =
        { stack := .ofList [0], place := 9, input := { source := .ofText "" } } := by
  have accepted : (lower {} countdown).1 =
      .ok
        ⟨[pushOf 2, .flow (.mark ⟨0⟩), pushOf 1, .arithmetic .subtract, .stack .duplicate, pushOf 0,
          .stack .swap, .arithmetic .subtract, .flow (.jumpNegative ⟨0⟩)], []⟩ := by
    decide +kernel
  have ran : LineProgram.run? (.ofLines {} [] countdown) 8 { input := { source := .ofText "" } } =
      some { stack := .ofList [0], place := 5, input := { source := .ofText "" } } := by
    rfl
  exact lower_simulates_lines accepted ran

end Whitespace.Assembly

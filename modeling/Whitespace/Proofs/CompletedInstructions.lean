/-
Module: Whitespace.Proofs.CompletedInstructions
Purpose: What the instructions that were completed since the last restart say about a session. Whatever its
  program and its history, control stays in the program or right behind it, every place to go back to
  follows a call, no cell lies beyond the largest address, the count of steps is that of the completed
  instructions, and as many routines are under way as calls without a return were completed.
Main exports: Program.Resolved, Control.Sound, Control.Sound.moves, Heap.Bounded, bounded_step,
  Moment.completed?, completed, accounts_after, Accounted, Accounted.after, accounted_recordAll,
  session_accounted
-/
import Whitespace.Proofs.ClosedPrograms

namespace Whitespace

/-! ### Control -/

/-- Every label stands for a place in the program or for the one right behind it. -/
def Program.Resolved (program : Program) : Prop :=
  ∀ l place, program.target? l = some place → place ≤ program.size

/-- The targets of a program that is made of instructions lie within it. -/
theorem Program.resolved_ofInstructions (instructions : List Instruction) :
    (ofInstructions instructions).Resolved := by
  intro l place target
  rw [target?_ofInstructions, positionAfterLast?_eq_some_iff] at target
  obtain ⟨k, i, rfl, here, -⟩ := target
  rw [size_ofInstructions]
  exact (List.getElem?_eq_some_iff.1 here).1

theorem Program.lt_size_of_instruction? {program : Program} {place : Nat} {i : Instruction}
    (here : program.instruction? place = some i) : place < program.size :=
  (Array.getElem?_eq_some_iff.1 here).1

namespace Machine

/-- Control is in the program or right behind it, it goes back to places right behind calls, and it halts
    only at an exit. -/
structure Control.Sound (program : Program) (c : Control) : Prop where
  pc : c.pc ≤ program.size
  calls : ∀ place ∈ c.calls, ∃ before l, place = before + 1 ∧
    program.instruction? before = some (.flow (.call l))
  halted : c.halted = true → program.instruction? c.pc = some (.flow .exit)

section

variable {program : Program} {c c' : Control} {i : Instruction}

theorem Control.Sound.place_le (sound : c.Sound program) {place : Nat} (member : place ∈ c.calls) :
    place ≤ program.size := by
  obtain ⟨before, l, rfl, here⟩ := sound.calls place member
  exact Program.lt_size_of_instruction? here

/-- Control stays sound when an instruction is completed. -/
theorem Control.Sound.moves (sound : c.Sound program) (resolved : program.Resolved)
    (running : c.halted = false) (here : program.instruction? c.pc = some i)
    (moves : c.Moves program i c') : c'.Sound program := by
  have going {P : Prop} (halted : c.halted = true) : P := by
    rw [running] at halted
    cases halted
  have inside := Program.lt_size_of_instruction? here
  cases moves with
  | onward _ _ _ goes =>
      refine ⟨?_, sound.calls, going⟩
      rcases goes with rfl | ⟨l, target⟩
      · exact inside
      · exact resolved l _ target
  | @enter l place target =>
      refine ⟨resolved l place target, ?_, going⟩
      intro place' member
      rcases List.mem_cons.1 member with rfl | member
      · exact ⟨c.pc, l, rfl, here⟩
      · exact sound.calls place' member
  | leave called =>
      refine ⟨?_, ?_, going⟩
      · apply sound.place_le
        rw [called]
        exact List.mem_cons_self
      · intro place' member
        apply sound.calls
        rw [called]
        exact List.mem_cons_of_mem _ member
  | halt => exact ⟨sound.pc, sound.calls, fun _ => here⟩

/-- A call adds a routine to those under way, and a return takes one away. -/
theorem Control.Moves.length_calls (moves : c.Moves program i c') :
    c'.calls.length + [i].countP Instruction.isReturn = c.calls.length + [i].countP Instruction.isCall := by
  cases moves with
  | onward call ret => simp [call, ret]
  | enter => simp [Instruction.isCall, Instruction.isReturn]
  | leave called =>
      rw [called]
      simp [Instruction.isCall, Instruction.isReturn]
  | halt => simp [Instruction.isCall, Instruction.isReturn]

end

/-! ### The heap -/

def Heap.Bounded (heap : Heap) : Prop := ∀ address ∈ heap, address ≤ maxAddress

section

variable {program : Program} {m m' : Machine} {s s' : State} {heap heap' : Heap} {stack stack' : Stack}
  {i : Instruction}

/-- No address beyond the largest one passes the check. -/
theorem le_of_checkedAddress {value : Int} {address : Nat} (h : checkedAddress value = .ok address) :
    address ≤ maxAddress := by
  unfold checkedAddress at h
  split at h
  · cases h
  · split at h
    · next small =>
      cases h
      exact small
    · cases h

/-- A cell that passes the check may be written. -/
theorem Heap.Bounded.insert (bounded : Heap.Bounded heap) {value : Int} {address : Nat}
    (checked : checkedAddress value = .ok address) (content : Int) :
    Heap.Bounded (Std.TreeMap.insert heap address content) := by
  intro other member
  rw [Std.TreeMap.mem_insert, Nat.compare_eq_eq] at member
  rcases member with rfl | member
  · exact le_of_checkedAddress checked
  · exact bounded other member

/-- Heap commands write no cell beyond the largest address. -/
theorem bounded_runHeap {command : HeapCommand} (bounded : Heap.Bounded heap)
    (h : runHeap stack heap command = .ok (stack', heap')) : Heap.Bounded heap' := by
  cases command with
  | store =>
      simp only [runHeap] at h
      split at h
      · next value place rest _ =>
        obtain ⟨address, checked, same⟩ := map_eq_ok.1 h
        cases same
        exact bounded.insert checked value
      · cases h
  | retrieve =>
      simp only [runHeap] at h
      split at h
      · split at h
        · cases h
        · split at h
          · cases h
            exact bounded
          · cases h
      · cases h

/-- Flow commands write nothing to the heap. -/
theorem heap_runFlow {command : FlowCommand} (h : runFlow program s command = .ok s') :
    s'.heap = s.heap := by
  cases command with
  | mark l | call l | jump l =>
      obtain ⟨place, -, rfl⟩ := map_eq_ok.1 h
      rfl
  | jumpZero l | jumpNegative l =>
      simp only [runFlow] at h
      cases resolved : resolve program l with
      | error f => simp [resolved, bind, Except.bind] at h
      | ok place =>
          rw [resolved] at h
          obtain ⟨a, rest, -, rfl⟩ := branch_eq_ok h
          split <;> rfl
  | ret =>
      simp only [runFlow] at h
      split at h
      · cases h
        rfl
      · cases h
  | exit | breakpoint =>
      cases h
      rfl

/-- Reads store what they bring in no cell beyond the largest address. -/
theorem bounded_receive {address : Nat} {value : Int} {rest : Stack} {r : Input.Outcome Int × Input.Port}
    (bounded : Heap.Bounded m.state.heap) (checked : checkedAddress value = .ok address)
    (h : m.receive address rest r = .completed m') : Heap.Bounded m'.state.heap := by
  obtain ⟨o, port⟩ := r
  cases o with
  | value n =>
      cases h
      exact bounded.insert checked n
  | failed | waiting => cases h

/-- Commands of the ports write no cell beyond the largest address. -/
theorem bounded_transfer {command : PortCommand} (bounded : Heap.Bounded m.state.heap)
    (h : m.transfer command = .completed m') : Heap.Bounded m'.state.heap := by
  unfold transfer at h
  split at h
  · cases h
  · cases command with
    | writeNumber =>
        cases h
        exact bounded
    | writeCharacter =>
        simp only at h
        split at h
        · cases h
          exact bounded
        · cases h
    | readCharacter | readNumber =>
        simp only at h
        split at h
        · next checked => exact bounded_receive bounded checked h
        · cases h

/-- No instruction writes a cell beyond the largest address. -/
theorem bounded_perform (bounded : Heap.Bounded m.state.heap) (h : m.perform program i = .completed m') :
    Heap.Bounded m'.state.heap := by
  cases i with
  | io command =>
      rw [perform_io] at h
      exact bounded_transfer bounded h
  | flow command =>
      rw [perform_flow] at h
      obtain ⟨s, ran, rfl⟩ := allOrNothing_eq_completed h
      rw [heap_runFlow ran]
      exact bounded
  | heap command =>
      rw [perform_heap] at h
      obtain ⟨s, ran, rfl⟩ := allOrNothing_eq_completed h
      obtain ⟨⟨stack, heap⟩, made, rfl⟩ := map_eq_ok.1 ran
      exact bounded_runHeap bounded made
  | stack command | arithmetic command =>
      simp only [perform_stack, perform_arithmetic] at h
      obtain ⟨s, ran, rfl⟩ := allOrNothing_eq_completed h
      obtain ⟨stack, -, rfl⟩ := map_eq_ok.1 ran
      exact bounded

/-- No step writes beyond the largest address. -/
theorem bounded_step (program : Program) (bounded : Heap.Bounded m.state.heap) :
    Heap.Bounded (m.step program).2.state.heap := by
  rcases stepped : m.step program with ⟨o, m'⟩
  have cases := step_cases program m
  rw [stepped] at cases
  cases cases with
  | halted | past => exact bounded
  | completed _ _ performed =>
      have kept := bounded_perform bounded performed
      exact kept
  | faulted | waiting =>
      obtain ⟨port, rfl⟩ := step_not_done stepped nofun
      exact bounded

end

/-- A return fails for want of a call only where no routine is under way. -/
theorem calls_of_returnWithoutCall {program : Program} {m m' : Machine} {f : Failure}
    (failed : m.step program = (.failed f, m')) (fault : f.fault = .returnWithoutCall) :
    m.state.calls = [] := by
  have cases := step_cases program m
  rw [failed] at cases
  cases cases with
  | past => cases fault
  | faulted _ _ performed =>
      subst fault
      rcases perform_faulted_ofControl performed rfl with ⟨_, _, -, -, -, other⟩ | ⟨-, called, -⟩
      · cases other
      · exact called

end Machine

namespace Session

/-! ### The completed instructions -/

/-- The instruction that the next step completes, if it completes one. -/
def completed? (s : Session) : Option Instruction :=
  match s.state.halted, (s.machine.step s.program).1 with
  | false, .done => s.program.instruction? s.state.pc
  | _, _ => none

def Run.takesStep (run : Run) (s : Session) : Bool :=
  run.resumed || !(run.aim.reached s.state || run.aim.heedsInterrupt && s.interrupted)

namespace Moment

/-- The instruction that an event completes, if it completes one. -/
def completed? (x : Moment) : Event → Option Instruction
  | .turn =>
    match x.run? with
    | none => none
    | some run => if run.takesStep x.session then x.session.completed? else none
  | _ => none

/-- The instructions completed since the last restart, the event included. -/
def record (x : Moment) (completed : List Instruction) (e : Event) : List Instruction :=
  match e, x.run? with
  | .restart, none => []
  | _, _ => completed ++ (x.completed? e).toList

/-- The instructions completed since the last restart once further events have happened. -/
def recordAll : Moment → List Instruction → List Event → List Instruction
  | _, completed, [] => completed
  | x, completed, e :: rest => (x.after e).recordAll (x.record completed e) rest

end Moment

/-- The instructions that a history completes after its last restart. -/
def completed (s : Session) (events : List Event) : List Instruction :=
  Moment.recordAll ⟨s, none⟩ [] events

section

variable {s : Session} {x : Moment} {run : Run}

/-- A run that takes a step does nothing else in its turn. -/
theorem turn_of_takesStep (steps : run.takesStep s = true) : s.turn run = s.takeStep run.aim := by
  unfold Run.takesStep at steps
  unfold turn
  cases resumed : run.resumed with
  | true => rfl
  | false =>
      simp only [resumed, Bool.false_or, Bool.not_eq_true', Bool.or_eq_false_iff] at steps
      simp only [steps.1, steps.2, Bool.false_eq_true, if_false]

/-- A run that takes no step leaves the state and the program as they are. -/
theorem turn_of_not_takesStep (stops : run.takesStep s = false) :
    (s.turn run).2.state = s.state ∧ (s.turn run).2.program = s.program := by
  unfold Run.takesStep at stops
  simp only [Bool.or_eq_false_iff, Bool.not_eq_false'] at stops
  obtain ⟨fresh, ends⟩ := stops
  unfold turn
  rw [fresh, if_neg nofun]
  cases reached : run.aim.reached s.state with
  | true => exact ⟨rfl, rfl⟩
  | false =>
      rw [reached, Bool.false_or] at ends
      rw [if_neg nofun, if_pos ends]
      exact ⟨rfl, rfl⟩

/-- A step carries out the instruction that it completes, or it changes nothing of the state. -/
theorem stepped_cases (s : Session) :
    (s.completed? = none ∧ s.stepped.state = s.state) ∨
      ∃ i, s.completed? = some i ∧ s.machine.Executes s.program i s.stepped.machine := by
  unfold completed? stepped state
  rcases stepped : s.machine.step s.program with ⟨o, m⟩
  by_cases done : o = .done
  · subst done
    rcases Machine.step_done stepped with ⟨halted, rfl⟩ | ⟨i, executes⟩
    · rw [halted]
      exact .inl ⟨rfl, rfl⟩
    · rw [executes.running]
      exact .inr ⟨i, executes.here, executes⟩
  · obtain ⟨port, rfl⟩ := Machine.step_not_done stepped done
    refine .inl ⟨?_, rfl⟩
    split
    · next same => exact absurd same done
    · rfl

/-! ### Accounts -/

/-- What an event does to the state and to the instructions that were completed since the last restart. -/
inductive Accounts (x : Moment) (completed : List Instruction) : Machine.State → List Instruction → Prop where
  /-- Nothing is completed, and nothing changes but the pause. -/
  | still (paused : Bool) : Accounts x completed { x.session.state with paused } completed
  | completes {i : Instruction} :
      x.session.machine.Executes x.session.program i x.session.stepped.machine →
      Accounts x completed x.session.stepped.state (completed ++ [i])
  | restarts : Accounts x completed {} []

/-- An event that is no restart and completes nothing leaves the record as it is. -/
theorem Moment.record_of_completed?_none {e : Event} (nothing : x.completed? e = none)
    (kept : e ≠ .restart) (completed : List Instruction) : x.record completed e = completed := by
  unfold Moment.record
  split
  · exact absurd rfl kept
  · rw [nothing]
    exact List.append_nil completed

/-- A turn of a run completes an instruction if it takes a step that completes one. -/
theorem accounts_turn (s : Session) (run : Run) (completed : List Instruction) :
    Accounts ⟨s, some run⟩ completed (s.turn run).2.state
      (completed ++ (if run.takesStep s then s.completed? else none).toList) := by
  have same : Accounts ⟨s, some run⟩ completed s.state completed := .still s.state.paused
  cases steps : run.takesStep s with
  | false =>
      rw [(turn_of_not_takesStep steps).1, if_neg nofun, Option.toList_none, List.append_nil]
      exact same
  | true =>
      rw [turn_of_takesStep steps, takeStep_snd, if_pos rfl]
      rcases stepped_cases s with ⟨nothing, kept⟩ | ⟨i, completes, executes⟩
      · rw [nothing, kept, Option.toList_none, List.append_nil]
        exact same
      · rw [completes]
        exact .completes executes

/-- Only a turn completes anything and only a restart forgets what was completed; both ask for the run that
    is under way. -/
theorem accounts_after (x : Moment) (completed : List Instruction) (e : Event) :
    Accounts x completed (x.after e).session.state (x.record completed e) := by
  have same : Accounts x completed x.session.state completed := .still x.session.state.paused
  have unrecorded (nothing : x.completed? e = none) (kept : e ≠ .restart) :
      x.record completed e = completed := Moment.record_of_completed?_none nothing kept completed
  obtain ⟨s, run?⟩ := x
  cases e with
  | turn =>
      cases run? with
      | none =>
          rw [unrecorded rfl nofun]
          exact same
      | some run => exact accounts_turn s run completed
  | restart =>
      cases run? with
      | none => exact .restarts
      | some run =>
          have kept : Moment.record ⟨s, some run⟩ completed .restart = completed := List.append_nil completed
          rw [kept]
          exact same
  | call command =>
      rw [unrecorded rfl nofun]
      cases run? with
      | some run => exact same
      | none =>
          obtain ⟨paused, begun⟩ := s.exists_begin command
          change Accounts _ completed (s.begin command).2.state completed
          rw [begun]
          exact .still paused
  | giveUp =>
      rw [unrecorded rfl nofun]
      match run? with
      | some ⟨_, true⟩ | some ⟨_, false⟩ | none => exact same
  | toggle | takeOutput =>
      rw [unrecorded rfl nofun]
      cases run? <;> exact same
  | interrupt | clearInterrupt | input =>
      rw [unrecorded rfl nofun]
      exact same

/-- The completed instructions account for a session over a program. -/
structure Accounted (completed : List Instruction) (s : Session) : Prop where
  resolved : s.program.Resolved
  control : s.state.control.Sound s.program
  heap : Machine.Heap.Bounded s.state.heap
  steps : s.state.steps = completed.length
  depth : s.state.calls.length + completed.countP Instruction.isReturn =
    completed.countP Instruction.isCall

variable {completed : List Instruction}

/-- An instruction that is completed is accounted for. -/
theorem Accounted.stepped {i : Instruction} (accounted : s.Accounted completed)
    (executes : s.machine.Executes s.program i s.stepped.machine) :
    s.stepped.Accounted (completed ++ [i]) := by
  have control : s.stepped.state.control.Sound s.program :=
    accounted.control.moves accounted.resolved executes.running executes.here executes.moves
  have steps : s.stepped.state.steps = s.state.steps + 1 := executes.steps
  have calls : s.stepped.state.calls.length + [i].countP Instruction.isReturn =
      s.state.calls.length + [i].countP Instruction.isCall := executes.moves.length_calls
  refine ⟨accounted.resolved, control, Machine.bounded_step s.program accounted.heap, ?_, ?_⟩
  · rw [steps, accounted.steps, List.length_append, List.length_singleton]
  · have depth := accounted.depth
    simp only [List.countP_append]
    omega

/-- An account does not depend on the pause and on the breakpoints. -/
theorem Accounted.of_state {s' : Session} {breakpoints : Std.TreeSet Nat}
    (accounted : s.Accounted completed) (program : s'.program = { s.program with breakpoints })
    (paused : Bool) (state : s'.state = { s.state with paused }) : s'.Accounted completed := by
  obtain ⟨resolved, control, heap, steps, depth⟩ := accounted
  constructor
  · rw [program]
    exact resolved
  · rw [program, state]
    exact ⟨control.pc, control.calls, control.halted⟩
  · rw [state]
    exact heap
  · rw [state]
    exact steps
  · rw [state]
    exact depth

/-- In the initial state nothing has happened, and the empty list accounts for it. -/
theorem accounted_initial {s : Session} (resolved : s.program.Resolved) (state : s.state = {}) :
    s.Accounted [] := by
  constructor
  · exact resolved
  · rw [state]
    exact ⟨Nat.zero_le _, nofun, nofun⟩
  · rw [state]
    intro address member
    exact absurd member Std.TreeMap.not_mem_emptyc
  · rw [state]
    rfl
  · rw [state]
    rfl

/-- Every event keeps the account. -/
theorem Accounted.after (accounted : x.session.Accounted completed) (e : Event) :
    (x.after e).session.Accounted (x.record completed e) := by
  obtain ⟨breakpoints, program⟩ := (changed_after x e).program_eq
  have accounts := accounts_after x completed e
  generalize state : (x.after e).session.state = s', x.record completed e = record at accounts
  cases accounts with
  | still paused => exact accounted.of_state program paused state
  | completes executes =>
      have stepped := accounted.stepped executes
      exact stepped.of_state program x.session.stepped.state.paused state
  | restarts =>
      apply accounted_initial _ state
      rw [program]
      exact accounted.resolved

theorem accounted_recordAll (accounted : x.session.Accounted completed) (events : List Event) :
    (events.foldl Moment.after x).session.Accounted (x.recordAll completed events) := by
  induction events generalizing x completed with
  | nil => exact accounted
  | cons e rest ih => exact ih (accounted.after e)

/-- Control that runs off the end does so right behind the last instruction. -/
theorem Accounted.pc_of_noTermination {f : Machine.Failure} (accounted : x.session.Accounted completed)
    (fails : x.Fails f) (fault : f.fault = .noTermination) :
    x.session.state.pc = x.session.program.size := by
  obtain ⟨m, failed⟩ := step_of_fails fails
  have past := Machine.instruction?_of_noTermination failed fault
  rw [Program.instruction?, Array.getElem?_eq_none_iff] at past
  exact Nat.le_antisymm accounted.control.pc past

end

/-- The completed instructions account for every session. After any history of runs, given up or not, of
    failures, breakpoints, input and restarts, the next place is in the program or right behind it, every
    place to go back to is right behind a call, no cell lies beyond the largest address, the machine has
    halted only at an exit, as many steps were counted as instructions were completed since the last restart,
    and the routines under way are the completed calls without the completed returns. So a run goes off the
    end only right behind it, and a return fails for want of a call only when as many returns as calls were
    completed. -/
theorem session_accounted (instructions : List Instruction) (events : List Event) :
    let x := (ofProgram (.ofInstructions instructions)).follow events
    let done := (ofProgram (.ofInstructions instructions)).completed events
    let s := x.session.state
    (s.pc ≤ instructions.length ∧
      (∀ place ∈ s.calls, 1 ≤ place ∧ place ≤ instructions.length ∧
        ∃ l, instructions[place - 1]? = some (.flow (.call l))) ∧
      (∀ address ∈ s.heap, address ≤ 2 ^ 53 - 1) ∧
      (s.halted = true → instructions[s.pc]? = some (.flow .exit)) ∧
      s.steps = done.length ∧
      s.calls.length + done.countP Instruction.isReturn = done.countP Instruction.isCall) ∧
    ∀ f, x.Fails f →
      (f.fault = .noTermination → f.pc = instructions.length ∧ s.pc = instructions.length) ∧
      (f.fault = .returnWithoutCall →
        s.calls = [] ∧ done.countP Instruction.isCall = done.countP Instruction.isReturn) := by
  intro x done s
  have accounted : x.session.Accounted done := by
    apply accounted_recordAll
    exact accounted_initial (Program.resolved_ofInstructions instructions) rfl
  obtain ⟨breakpoints, program⟩ := program_follow (ofProgram (.ofInstructions instructions)) events
  have size : x.session.program.size = instructions.length := by
    rw [program]
    exact Program.size_ofInstructions instructions
  have here (place : Nat) : x.session.program.instruction? place = instructions[place]? := by
    rw [program]
    exact Program.instruction?_ofInstructions instructions place
  have control := accounted.control
  refine ⟨⟨?_, ?_, accounted.heap, ?_, accounted.steps, accounted.depth⟩, ?_⟩
  · rw [← size]
    exact control.pc
  · intro place member
    have inside := control.place_le member
    obtain ⟨before, l, rfl, call⟩ := control.calls place member
    rw [size] at inside
    rw [here] at call
    exact ⟨Nat.succ_pos before, inside, l, call⟩
  · intro halted
    rw [← here]
    exact control.halted halted
  · intro f fails
    obtain ⟨m, failed⟩ := step_of_fails fails
    constructor
    · intro fault
      have pc := accounted.pc_of_noTermination fails fault
      rw [size] at pc
      exact ⟨(Machine.step_failed failed).1.trans pc, pc⟩
    · intro fault
      have none : s.calls = [] := Machine.calls_of_returnWithoutCall failed fault
      have depth : s.calls.length + _ = _ := accounted.depth
      rw [none, List.length_nil, Nat.zero_add] at depth
      exact ⟨none, depth.symm⟩

/-- A routine is called and left, and the next return finds no call. The history before the restart does
    not count. -/
theorem session_accounted_return :
    let instructions : List Instruction := [.flow (.call ⟨0⟩), .flow .ret, .flow (.mark ⟨0⟩), .flow .ret]
    let events : List Event := [.call .step, .turn, .toggle 1, .restart, .call .run, .turn, .turn]
    let x := (ofProgram (.ofInstructions instructions)).follow events
    x.Fails ⟨1, some (.flow .ret), .returnWithoutCall⟩ ∧ x.session.state.steps = 2 ∧
      ((ofProgram (.ofInstructions instructions)).completed events).countP Instruction.isReturn = 1 := by
  intro instructions events x
  have run : x.run? = some ⟨.halt, false⟩ := by decide +kernel
  have failed : (x.session.turn ⟨.halt, false⟩).1 = .failed ⟨1, some (.flow .ret), .returnWithoutCall⟩ := by
    decide +kernel
  have fails : x.Fails ⟨1, some (.flow .ret), .returnWithoutCall⟩ := ⟨_, run, failed⟩
  have completed : (ofProgram (.ofInstructions instructions)).completed events =
      [.flow (.call ⟨0⟩), .flow .ret] := by decide +kernel
  obtain ⟨⟨-, -, -, -, steps, -⟩, failures⟩ := session_accounted instructions events
  obtain ⟨-, counts⟩ := (failures _ fails).2 rfl
  rw [completed] at steps counts
  refine ⟨fails, steps, ?_⟩
  rw [completed, ← counts]
  rfl

end Session

end Whitespace

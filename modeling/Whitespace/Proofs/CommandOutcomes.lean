/-
Module: Whitespace.Proofs.CommandOutcomes
Purpose: Every command comes to one of two things: the whole of what it is for, or a fault and nothing
  else. The outcomes are stated here as functions of the stack, the heap and the control; the commands
  themselves work on the machine in place and leave it as it is when they stop, so that nothing is left
  half done has to be proved. A read is the one command that may stop with the machine changed, and only
  the port is.
Main exports: runStack, runArithmetic, runHeap, runFlow, allOrNothing, transfer, perform_stack,
  perform_arithmetic, perform_heap, perform_flow, perform_io
-/
import Whitespace.Machine.Step

namespace Whitespace.Machine

/-! ### Outcomes on the stack and the heap -/

/-- The stack after a stack command. -/
def runStack (stack : Stack) : StackCommand → Except Fault Stack
  | .push value => .ok (stack.push value)
  | .duplicate =>
    match stack.pop? with
    | some (a, _) => .ok (stack.push a)
    | none => .error (underflow 1 stack)
  | .copy index =>
    if index < 0 then .error (.invalidOperand index)
    else
      match stack.get? index.toNat with
      | some a => .ok (stack.push a)
      | none => .error (underflow (index.toNat + 1) stack)
  | .swap =>
    match stack.popTwo? with
    | some (b, a, rest) => .ok ((rest.push b).push a)
    | none => .error (underflow 2 stack)
  | .discard =>
    match stack.pop? with
    | some (_, rest) => .ok rest
    | none => .error (underflow 1 stack)
  | .slide count =>
    if count < 0 then .error (.invalidOperand count)
    else
      match stack.pop? with
      | some (a, rest) =>
        if count.toNat ≤ rest.size then .ok ((rest.drop count.toNat).push a)
        else .error (underflow (count.toNat + 1) stack)
      | none => .error (underflow (count.toNat + 1) stack)

/-- The stack after an arithmetic command. The complement looks at the top alone. -/
def runArithmetic (stack : Stack) : ArithmeticCommand → Except Fault Stack
  | .complement =>
    match stack.pop? with
    | some (b, rest) => .ok (rest.push (bitComplement b))
    | none => .error (underflow 1 stack)
  | command =>
    match stack.popTwo? with
    | some (b, a, rest) => (compute a b command).map rest.push
    | none => .error (underflow 2 stack)

/-- The stack and the heap after a heap command. -/
def runHeap (stack : Stack) (heap : Heap) : HeapCommand → Except Fault (Stack × Heap)
  | .store =>
    match stack.popTwo? with
    | some (value, place, rest) =>
      (checkedAddress place).map fun address => (rest, heap.insert address value)
    | none => .error (underflow 2 stack)
  | .retrieve =>
    match stack.pop? with
    | some (place, rest) =>
      match checkedAddress place with
      | .error e => .error e
      | .ok address =>
        match heap[address]? with
        | some value => .ok (rest.push value, heap)
        | none => .error (.uninitializedAddress address)
    | none => .error (underflow 1 stack)

/-! ### Outcomes on control -/

namespace State

def next (s : State) : State := { s with pc := s.pc + 1 }

def goto (s : State) (place : Nat) : State := { s with pc := place }

/-- Takes the top and jumps when it passes the test. -/
def branch (s : State) (target : Nat) (test : Int → Bool) : Except Fault State :=
  match s.stack.pop? with
  | some (a, rest) =>
    let s := { s with stack := rest }
    .ok (if test a then s.goto target else s.next)
  | none => .error (underflow 1 s.stack)

end State

/-- The state after a flow command. -/
def runFlow (program : Program) (s : State) : FlowCommand → Except Fault State
  | .mark l => (resolve program l).map fun _ => s.next
  | .call l =>
    (resolve program l).map fun target => { s with calls := (s.pc + 1) :: s.calls }.goto target
  | .jump l => (resolve program l).map s.goto
  | .jumpZero l => do s.branch (← resolve program l) (· = 0)
  | .jumpNegative l => do s.branch (← resolve program l) (· < 0)
  | .ret =>
    match s.calls with
    | place :: rest => .ok ({ s with calls := rest }.goto place)
    | [] => .error .returnWithoutCall
  | .exit => .ok { s with halted := true }
  | .breakpoint => .ok s.next

/-! ### Outcomes on the machine -/

/-- The effect of a command whose outcome on the state is known, when a fault leaves the machine as it
    was. -/
def allOrNothing (m : Machine) : Except Fault State → Effect
  | .ok s => .completed { m with state := s }
  | .error f => .faulted f m

/-- The effect of a read: what was read is stored at the address, which is taken off the stack. -/
def receive (m : Machine) (address : Nat) (rest : Stack) :
    Input.Outcome Int × Input.Port → Effect
  | (.value n, port) =>
    let s := { m.state with stack := rest, heap := m.state.heap.insert address n }
    .completed { m with state := s.next, input := port }
  | (.failed e, port) => .faulted (.input e) { m with input := port }
  | (.waiting, port) => .waiting { m with input := port }

def codePoint : Input.Outcome Char × Input.Port → Input.Outcome Int × Input.Port
  | (.value c, port) => (.value c.toNat, port)
  | (.failed e, port) => (.failed e, port)
  | (.waiting, port) => (.waiting, port)

/-- The effect of an input or output command. -/
def transfer (m : Machine) (command : PortCommand) : Effect :=
  match m.state.stack.pop? with
  | none => .faulted (underflow 1 m.state.stack) m
  | some (a, rest) =>
    let popped := { m.state with stack := rest }
    match command with
    | .writeCharacter =>
      match character? a with
      | some c => .completed { m with state := popped.next, output := m.output.writeCharacter c }
      | none => .faulted (.invalidCharacter a) m
    | .writeNumber => .completed { m with state := popped.next, output := m.output.writeNumber a }
    | .readCharacter =>
      match checkedAddress a with
      | .ok address => m.receive address rest (codePoint m.input.readCharacter)
      | .error f => .faulted f m
    | .readNumber =>
      match checkedAddress a with
      | .ok address => m.receive address rest m.input.readNumber
      | .error f => .faulted f m

/-! ### Jobs, one piece at a time -/

namespace Job

variable {α β : Type} {m m' : Machine}

/-- A job that goes on hands the machine it leaves to the next one. -/
theorem run_bind_of_ok {job : Job α} {rest : α → Job β} {a : α} (h : job.run m = .ok a m') :
    (job >>= rest).run m = (rest a).run m' := by
  change EStateM.bind job rest m = _
  unfold EStateM.bind
  rw [show job m = .ok a m' from h]
  rfl

/-- A job that stops keeps the next one from starting. -/
theorem run_bind_of_error {job : Job α} {rest : α → Job β} {stop : Stop}
    (h : job.run m = .error stop m') : (job >>= rest).run m = .error stop m' := by
  change EStateM.bind job rest m = _
  unfold EStateM.bind
  rw [show job m = .error stop m' from h]

theorem run_pure (a : α) : (pure a : Job α).run m = .ok a m := rfl

theorem run_fail (f : Fault) : (fail f : Job α).run m = .error (.fault f) m := rfl

/-- A job stops in front of a stack that is not deep enough, before it has done anything. -/
theorem run_need (count : Nat) (rest : Unit → Job β) :
    (need count >>= rest).run m =
      if m.state.stack.size < count then .error (.fault (underflow count m.state.stack)) m
      else (rest ()).run m := by
  by_cases short : m.state.stack.size < count
  · rw [if_pos short]
    apply run_bind_of_error
    change (if _ then _ else _ : Job Unit).run m = _
    rw [if_pos short]
    rfl
  · rw [if_neg short]
    apply run_bind_of_ok
    change (if _ then _ else _ : Job Unit).run m = _
    rw [if_neg short]
    rfl

theorem run_check_ok (a : α) (rest : α → Job β) :
    (check (.ok a) >>= rest).run m = (rest a).run m := rfl

theorem run_check_error (f : Fault) (rest : α → Job β) :
    (check (.error f) >>= rest).run m = .error (.fault f) m := rfl

theorem run_value (depth : Nat) (rest : Int → Job β) :
    (value depth >>= rest).run m = (rest ((m.state.stack.get? depth).getD 0)).run m := rfl

theorem run_get (rest : Machine → Job β) : (get >>= rest : Job β).run m = (rest m).run m := rfl

/-- The port is kept as a read leaves it, whether the read has brought something or not. -/
theorem run_read (reads : Input.Port → Input.Outcome α × Input.Port) (rest : α → Job β) :
    (read reads >>= rest).run m =
      match reads m.input with
      | (.value a, input) => (rest a).run { m with input }
      | (.failed e, input) => .error (.fault (.input e)) { m with input }
      | (.waiting, input) => .error .waiting { m with input } := by
  rcases h : reads m.input with ⟨outcome, input⟩
  cases outcome with
  | value a => exact run_bind_of_ok (by rw [EStateM.run, read, h])
  | failed e => exact run_bind_of_error (by rw [EStateM.run, read, h])
  | waiting => exact run_bind_of_error (by rw [EStateM.run, read, h])

theorem run_push (a : Int) (rest : Unit → Job β) :
    (push a >>= rest).run m =
      (rest ()).run { m with state.stack := m.state.stack.push a } := rfl

theorem run_drop (count : Nat) (rest : Unit → Job β) :
    (drop count >>= rest).run m =
      (rest ()).run { m with state.stack := m.state.stack.drop count } := rfl

theorem run_store (address : Nat) (a : Int) (rest : Unit → Job β) :
    (store address a >>= rest).run m =
      (rest ()).run { m with state.heap := m.state.heap.insert address a } := rfl

theorem run_write (writes : Output → Output) (rest : Unit → Job β) :
    (write writes >>= rest).run m = (rest ()).run { m with output := writes m.output } := rfl

end Job

/-! ### Commands as a whole -/

section

variable {program : Program} {m : Machine}

/-- A stack command changes the stack as a whole, or not at all. -/
theorem perform_stack (command : StackCommand) :
    m.perform program (.stack command) =
      m.allOrNothing ((runStack m.state.stack command).map fun stack => { m.state with stack }.next) := by
  unfold perform Job.instruction
  cases command with
  | push a => rfl
  | duplicate =>
    simp only [Job.stack, Job.run_need, Job.run_value, Job.run_push, Job.run_pure, runStack]
    cases m.state.stack with
    | empty => rfl
    | push s a =>
      have deep : ¬ (s.push a).size < 1 := by simp
      rw [if_neg deep, Stack.get?_push_zero, Stack.pop?_push]
      rfl
  | copy index =>
    simp only [Job.stack, checkedOperand, runStack]
    by_cases negative : index < 0
    · simp only [if_pos negative]
      rfl
    · simp only [if_neg negative, Job.run_check_ok, Job.run_need, Job.run_value, Job.run_push,
        Job.run_pure]
      cases found : m.state.stack.get? index.toNat with
      | none =>
        have short := Nat.lt_succ_of_le (Stack.get?_eq_none_iff.1 found)
        simp only [if_pos short]
        rfl
      | some a =>
        have deep : ¬ m.state.stack.size < index.toNat + 1 := by
          intro short
          rw [Stack.get?_eq_none_iff.2 (Nat.le_of_lt_succ short)] at found
          cases found
        simp only [if_neg deep]
        rfl
  | swap =>
    simp only [Job.stack, Job.run_need, Job.run_value, Job.run_push, Job.run_drop, Job.run_pure, runStack]
    cases m.state.stack with
    | empty => rfl
    | push s b =>
      cases s with
      | empty => rfl
      | push s a =>
        have deep : ¬ ((s.push a).push b).size < 2 := by simp
        rw [if_neg deep, Stack.get?_push_zero, Stack.get?_push_succ, Stack.get?_push_zero,
          Stack.drop_push_succ, Stack.drop_push_succ, Stack.popTwo?_push_push]
        rfl
  | discard =>
    simp only [Job.stack, Job.run_need, Job.run_drop, Job.run_pure, runStack]
    cases m.state.stack with
    | empty => rfl
    | push s a =>
      have deep : ¬ (s.push a).size < 1 := by simp
      rw [if_neg deep, Stack.drop_push_succ, Stack.pop?_push]
      rfl
  | slide count =>
    simp only [Job.stack, checkedOperand, runStack]
    by_cases negative : count < 0
    · simp only [if_pos negative]
      rfl
    · simp only [if_neg negative, Job.run_check_ok, Job.run_need, Job.run_value, Job.run_drop,
        Job.run_push, Job.run_pure]
      cases m.state.stack with
      | empty =>
        have short : Stack.empty.size < count.toNat + 1 := Nat.succ_pos _
        rw [if_pos short]
        rfl
      | push s a =>
        rw [Stack.size_push, Stack.pop?_push]
        by_cases covered : count.toNat ≤ s.size
        · have deep : ¬ s.size + 1 < count.toNat + 1 := by omega
          simp only [if_neg deep, if_pos covered, Stack.get?_push_zero, Stack.drop_push_succ]
          rfl
        · have short : s.size + 1 < count.toNat + 1 := by omega
          simp only [if_pos short, if_neg covered]
          rfl

/-- Every arithmetic command but the complement takes two operands. -/
theorem runArithmetic_of_ne {stack : Stack} {command : ArithmeticCommand} (h : command ≠ .complement) :
    runArithmetic stack command =
      match stack.popTwo? with
      | some (b, a, rest) => (compute a b command).map rest.push
      | none => .error (underflow 2 stack) := by
  cases command with
  | complement => exact absurd rfl h
  | _ => rfl

/-- An arithmetic command changes the stack as a whole, or not at all. -/
theorem perform_arithmetic (command : ArithmeticCommand) :
    m.perform program (.arithmetic command) =
      m.allOrNothing
        ((runArithmetic m.state.stack command).map fun stack => { m.state with stack }.next) := by
  unfold perform Job.instruction Job.arithmetic
  by_cases complement : command = .complement
  · subst complement
    simp only [if_true, Job.run_need, Job.run_value, compute, Job.run_check_ok, Job.run_drop, Job.run_push,
      Job.run_pure, runArithmetic]
    cases m.state.stack with
    | empty => rfl
    | push s b =>
      have deep : ¬ (s.push b).size < 1 := by simp
      rw [if_neg deep, Stack.get?_push_zero, Stack.drop_push_succ, Stack.pop?_push]
      rfl
  · rw [runArithmetic_of_ne complement]
    simp only [if_neg complement, Job.run_need, Job.run_value]
    cases shape : m.state.stack with
    | empty => rfl
    | push s b =>
      cases s with
      | empty => rfl
      | push s a =>
        have deep : ¬ ((s.push a).push b).size < 2 := by simp
        rw [if_neg deep, Stack.get?_push_zero, Stack.get?_push_succ, Stack.get?_push_zero,
          Stack.popTwo?_push_push]
        simp only [Option.getD_some]
        cases compute a b command with
        | error f => rfl
        | ok result =>
          simp only [Job.run_check_ok, Job.run_drop, Job.run_push, Job.run_pure, shape, Stack.drop_push_succ,
            Stack.drop_zero]
          rfl

/-- A heap command changes the stack and the heap as a whole, or not at all. -/
theorem perform_heap (command : HeapCommand) :
    m.perform program (.heap command) =
      m.allOrNothing ((runHeap m.state.stack m.state.heap command).map fun (stack, heap) =>
        { m.state with stack, heap }.next) := by
  unfold perform Job.instruction
  cases command with
  | store =>
    simp only [Job.heap, Job.run_need, Job.run_value, runHeap]
    cases shape : m.state.stack with
    | empty => rfl
    | push s b =>
      cases s with
      | empty => rfl
      | push s a =>
        have deep : ¬ ((s.push a).push b).size < 2 := by simp
        rw [if_neg deep, Stack.get?_push_succ, Stack.get?_push_zero, Stack.popTwo?_push_push]
        simp only [Option.getD_some]
        cases checkedAddress a with
        | error f => rfl
        | ok address =>
          simp only [Job.run_check_ok, Job.run_value, Job.run_drop, Job.run_store, Job.run_pure, shape,
            Stack.get?_push_zero, Stack.drop_push_succ, Stack.drop_zero]
          rfl
  | retrieve =>
    simp only [Job.heap, Job.run_need, Job.run_value, runHeap]
    cases shape : m.state.stack with
    | empty => rfl
    | push s a =>
      have deep : ¬ (s.push a).size < 1 := by simp
      rw [if_neg deep, Stack.get?_push_zero, Stack.pop?_push]
      simp only [Option.getD_some]
      cases checkedAddress a with
      | error f => rfl
      | ok address =>
        simp only [Job.run_check_ok, Job.run_get]
        cases m.state.heap[address]? with
        | none => rfl
        | some b =>
          simp only [Job.run_drop, Job.run_push, Job.run_pure, shape, Stack.drop_push_succ, Stack.drop_zero]
          rfl

/-- A branch takes the top and jumps, or finds no top and leaves the machine as it is. -/
theorem ofRun_branch (target : Nat) (test : Int → Bool) :
    Effect.ofRun m.state.pc ((Job.branch target test).run m) =
      m.allOrNothing (m.state.branch target test) := by
  simp only [Job.branch, Job.run_need, Job.run_value, Job.run_drop, Job.run_pure, State.branch]
  cases m.state.stack with
  | empty => rfl
  | push s a =>
    have deep : ¬ (s.push a).size < 1 := by simp
    rw [if_neg deep, Stack.get?_push_zero, Stack.drop_push_succ, Stack.pop?_push]
    simp only [Option.getD_some]
    by_cases passes : test a
    · simp only [if_pos passes]
      rfl
    · simp only [if_neg passes]
      rfl

/-- A flow command moves control as a whole, or not at all. -/
theorem perform_flow (command : FlowCommand) :
    m.perform program (.flow command) = m.allOrNothing (runFlow program m.state command) := by
  unfold perform Job.instruction Job.flow
  cases command with
  | mark l | call l | jump l =>
    simp only [FlowCommand.label?, runFlow]
    cases resolve program l with
    | error f => rfl
    | ok place => rfl
  | jumpZero l | jumpNegative l =>
    simp only [FlowCommand.label?, runFlow]
    cases resolve program l with
    | error f => rfl
    | ok place => exact ofRun_branch place _
  | ret =>
    obtain ⟨⟨stack, heap, calls, pc, halted, paused, steps⟩, input, output⟩ := m
    cases calls with
    | nil => rfl
    | cons place rest => rfl
  | exit => rfl
  | breakpoint => rfl

/-- A read that has the address of the cell changes the state once it has brought something, and the port
    in any case. -/
theorem ofRun_read {α : Type} {reads : Input.Port → Input.Outcome α × Input.Port}
    {r : Input.Outcome Int × Input.Port} {rest : Stack} {a : Int} (number : α → Int) (address : Nat)
    (shape : m.state.stack = rest.push a)
    (converted : r = match reads m.input with
      | (.value x, port) => (.value (number x), port)
      | (.failed e, port) => (.failed e, port)
      | (.waiting, port) => (.waiting, port)) :
    Effect.ofRun m.state.pc
        ((do
          let x ← Job.read reads
          Job.drop 1
          Job.store address (number x)
          return .next : Job Advance).run m) =
      m.receive address rest r := by
  rw [Job.run_read, converted]
  rcases reads m.input with ⟨outcome, port⟩
  cases outcome with
  | value x =>
    simp only [Job.run_drop, Job.run_store, Job.run_pure, shape, Stack.drop_push_succ, Stack.drop_zero]
    rfl
  | failed e => rfl
  | waiting => rfl

/-- A command of the ports fails or waits with nothing changed but the port. -/
theorem perform_io (command : PortCommand) : m.perform program (.io command) = m.transfer command := by
  unfold perform Job.instruction Job.io transfer
  rw [Job.run_need]
  cases shape : m.state.stack with
  | empty => rfl
  | push s a =>
    have deep : ¬ (s.push a).size < 1 := by simp
    rw [if_neg deep, Job.run_value, shape, Stack.get?_push_zero, Stack.pop?_push]
    simp only [Option.getD_some]
    cases command with
    | writeCharacter =>
      simp only
      cases character? a with
      | none => rfl
      | some c =>
        simp only [Job.run_drop, Job.run_write, Job.run_pure, shape, Stack.drop_push_succ, Stack.drop_zero]
        rfl
    | writeNumber =>
      simp only [Job.run_drop, Job.run_write, Job.run_pure, shape, Stack.drop_push_succ, Stack.drop_zero]
      rfl
    | readCharacter =>
      simp only
      cases checkedAddress a with
      | error f => rfl
      | ok address =>
        rw [Job.run_check_ok]
        apply ofRun_read (fun c : Char => (c.toNat : Int)) address shape
        rcases m.input.readCharacter with ⟨_ | _ | _, port⟩ <;> rfl
    | readNumber =>
      simp only
      cases checkedAddress a with
      | error f => rfl
      | ok address =>
        rw [Job.run_check_ok]
        apply ofRun_read id address shape
        rcases m.input.readNumber with ⟨_ | _ | _, port⟩ <;> rfl

end

end Whitespace.Machine

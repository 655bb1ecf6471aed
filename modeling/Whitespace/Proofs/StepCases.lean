/-
Module: Whitespace.Proofs.StepCases
Purpose: All that a single step can do, said once. An instruction that completes sends control to one of
  a few places and counts as one step. An instruction that fails or has to wait changes nothing but what
  the port keeps, and it is a read unless even the port is unchanged. What holds along a run is derived
  from these cases.
Main exports: Control, Control.Moves, perform_completed, perform_faulted, perform_waiting, StepCase,
  step_cases, Executes, step_done, step_not_done, step_failed
-/
import Whitespace.Proofs.PlainEffects

namespace Whitespace.Machine

/-! ### Control -/

/-- The part of a state that says what is done next. -/
structure Control where
  pc : Nat
  calls : List Nat
  halted : Bool

def State.control (s : State) : Control := ⟨s.pc, s.calls, s.halted⟩

/-- Where an instruction that completes sends control. -/
inductive Control.Moves (program : Program) (c : Control) : Instruction → Control → Prop where
  | onward {i : Instruction} {place : Nat} : i.isCall = false → i.isReturn = false →
      i ≠ .flow .exit → (place = c.pc + 1 ∨ ∃ l, program.target? l = some place) →
      Moves program c i { c with pc := place }
  | enter {l : Label} {place : Nat} : program.target? l = some place →
      Moves program c (.flow (.call l)) { c with pc := place, calls := (c.pc + 1) :: c.calls }
  | leave {place : Nat} {rest : List Nat} : c.calls = place :: rest →
      Moves program c (.flow .ret) { c with pc := place, calls := rest }
  | halt : Moves program c (.flow .exit) { c with halted := true }

section

variable {program : Program} {m m' : Machine} {s s' : State} {i : Instruction}

theorem resolve_eq_ok_iff {l : Label} {place : Nat} :
    resolve program l = .ok place ↔ program.target? l = some place := by
  unfold resolve
  cases program.target? l <;> simp

/-- A branch that succeeds has taken the top, and control has gone one of two ways. -/
theorem branch_eq_ok {place : Nat} {test : Int → Bool} (h : s.branch place test = .ok s') :
    ∃ a rest, s.stack.pop? = some (a, rest) ∧
      s' = if test a then { s with stack := rest }.goto place else { s with stack := rest }.next := by
  unfold State.branch at h
  cases popped : s.stack.pop? with
  | none => simp [popped] at h
  | some top =>
      obtain ⟨a, rest⟩ := top
      rw [popped] at h
      exact ⟨a, rest, rfl, (Except.ok.inj h).symm⟩

/-- A conditional jump goes to its target or on. -/
theorem moves_of_branch {place : Nat} {test : Int → Bool} {l : Label} (call : i.isCall = false)
    (ret : i.isReturn = false) (exit : i ≠ .flow .exit) (target : program.target? l = some place)
    (h : s.branch place test = .ok s') :
    s.control.Moves program i s'.control ∧ s'.steps = s.steps ∧ s'.paused = s.paused := by
  obtain ⟨a, rest, -, rfl⟩ := branch_eq_ok h
  cases test a with
  | true => exact ⟨.onward call ret exit (.inr ⟨l, target⟩), rfl, rfl⟩
  | false => exact ⟨.onward call ret exit (.inl rfl), rfl, rfl⟩

/-- A flow command that completes moves control; the count of steps and the pause are left alone. -/
theorem runFlow_eq_ok {command : FlowCommand} (h : runFlow program s command = .ok s') :
    s.control.Moves program (.flow command) s'.control ∧ s'.steps = s.steps ∧
      s'.paused = s.paused := by
  unfold runFlow at h
  cases command with
  | mark l | call l | jump l =>
      simp only at h
      cases resolved : resolve program l with
      | error f => simp [resolved, Except.map] at h
      | ok place =>
          rw [resolved] at h
          cases h
          have target := resolve_eq_ok_iff.1 resolved
          first
            | exact ⟨.onward rfl rfl nofun (.inl rfl), rfl, rfl⟩
            | exact ⟨.enter target, rfl, rfl⟩
            | exact ⟨.onward rfl rfl nofun (.inr ⟨l, target⟩), rfl, rfl⟩
  | jumpZero l | jumpNegative l =>
      simp only at h
      cases resolved : resolve program l with
      | error f => simp [resolved, bind, Except.bind] at h
      | ok place =>
          rw [resolved] at h
          exact moves_of_branch rfl rfl nofun (resolve_eq_ok_iff.1 resolved) h
  | ret =>
      cases called : s.calls with
      | nil => simp [called] at h
      | cons place rest =>
          rw [called] at h
          cases h
          exact ⟨.leave called, rfl, rfl⟩
  | exit =>
      cases h
      exact ⟨.halt, rfl, rfl⟩
  | breakpoint =>
      cases h
      exact ⟨.onward rfl rfl nofun (.inl rfl), rfl, rfl⟩

theorem allOrNothing_eq_completed {r : Except Fault State} (h : m.allOrNothing r = .completed m') :
    ∃ s, r = .ok s ∧ m' = { m with state := s } := by
  cases r with
  | ok s => exact ⟨s, rfl, (Effect.completed.inj h).symm⟩
  | error f => cases h

/-- An instruction that completes moves control; the count of steps and the pause are left alone. -/
theorem perform_completed (h : m.perform program i = .completed m') :
    m.state.control.Moves program i m'.state.control ∧ m'.state.steps = m.state.steps ∧
      m'.state.paused = m.state.paused := by
  cases flow : i.isFlow with
  | false =>
      obtain ⟨change, spec⟩ := perform_eq_apply flow m.state.stack m.state.heap m.input m.output
      rw [spec program m rfl rfl rfl rfl] at h
      cases change with
      | made stack heap input output =>
          cases h
          refine ⟨.onward ?_ ?_ ?_ (.inl rfl), rfl, rfl⟩
          · cases i <;> first | rfl | cases flow
          · cases i <;> first | rfl | cases flow
          · rintro rfl
            cases flow
      | _ => cases h
  | true =>
      cases i with
      | flow command =>
          rw [perform_flow] at h
          obtain ⟨s, ran, rfl⟩ := allOrNothing_eq_completed h
          exact runFlow_eq_ok ran
      | _ => cases flow

end

/-! ### Faults -/

def Fault.ofControl : Fault → Bool
  | .undefinedLabel _ | .returnWithoutCall | .noTermination => true
  | _ => false

def Fault.ofInput : Fault → Bool
  | .input _ => true
  | _ => false

/-- The fault is one of data that no read has brought. -/
def Fault.Plain (f : Fault) : Prop := f.ofControl = false ∧ f.ofInput = false

section

variable {program : Program} {m m' : Machine} {s : State} {stack : Stack} {i : Instruction} {f : Fault}

/-- A check of an address fails for the value alone. -/
theorem plain_of_checkedAddress {value : Int} (h : checkedAddress value = .error f) : f.Plain := by
  unfold checkedAddress at h
  split at h
  · cases h
    exact ⟨rfl, rfl⟩
  · split at h
    · cases h
    · cases h
      exact ⟨rfl, rfl⟩

/-- A stack command fails for its data alone. -/
theorem plain_of_runStack {command : StackCommand} (h : runStack stack command = .error f) :
    f.Plain := by
  cases command with
  | push value => cases h
  | duplicate | swap | discard =>
      simp only [runStack] at h
      split at h
      · cases h
      · cases h
        exact ⟨rfl, rfl⟩
  | copy index =>
      simp only [runStack] at h
      split at h
      · cases h
        exact ⟨rfl, rfl⟩
      · split at h
        · cases h
        · cases h
          exact ⟨rfl, rfl⟩
  | slide count =>
      simp only [runStack] at h
      split at h
      · cases h
        exact ⟨rfl, rfl⟩
      · split at h
        · split at h
          · cases h
          · cases h
            exact ⟨rfl, rfl⟩
        · cases h
          exact ⟨rfl, rfl⟩

/-- A computation fails for its data alone. -/
theorem plain_of_compute {a b : Int} {command : ArithmeticCommand}
    (h : compute a b command = .error f) : f.Plain := by
  cases command with
  | divide | modulo =>
      simp only [compute] at h
      split at h
      · cases h
        exact ⟨rfl, rfl⟩
      · cases h
  | _ => cases h

theorem map_eq_error {α β : Type} {r : Except Fault α} {g : α → β} (h : r.map g = .error f) :
    r = .error f := by
  cases r with
  | ok a => cases h
  | error e =>
      cases h
      rfl

/-- An arithmetic command fails for its data alone. -/
theorem plain_of_runArithmetic {command : ArithmeticCommand}
    (h : runArithmetic stack command = .error f) : f.Plain := by
  unfold runArithmetic at h
  split at h
  · split at h
    · cases h
    · cases h
      exact ⟨rfl, rfl⟩
  · split at h
    · exact plain_of_compute (map_eq_error h)
    · cases h
      exact ⟨rfl, rfl⟩

/-- A heap command fails for its data alone. -/
theorem plain_of_runHeap {heap : Heap} {command : HeapCommand}
    (h : runHeap stack heap command = .error f) : f.Plain := by
  cases command with
  | store =>
      simp only [runHeap] at h
      split at h
      · exact plain_of_checkedAddress (map_eq_error h)
      · cases h
        exact ⟨rfl, rfl⟩
  | retrieve =>
      simp only [runHeap] at h
      split at h
      · split at h
        · next checked =>
          cases h
          exact plain_of_checkedAddress checked
        · split at h
          · cases h
          · cases h
            exact ⟨rfl, rfl⟩
      · cases h
        exact ⟨rfl, rfl⟩

/-- A flow command fails because of its label, because there is no call to return from, or because the
    stack is empty. -/
theorem runFlow_eq_error {command : FlowCommand} (h : runFlow program s command = .error f) :
    (∃ l, command.label? = some l ∧ program.target? l = none ∧ f = .undefinedLabel l) ∨
      (command = .ret ∧ s.calls = [] ∧ f = .returnWithoutCall) ∨ f.Plain := by
  have unresolved : ∀ {l}, resolve program l = .error f →
      program.target? l = none ∧ f = .undefinedLabel l := by
    intro l failed
    unfold resolve at failed
    split at failed
    · cases failed
    · next target =>
      cases failed
      exact ⟨target, rfl⟩
  cases command with
  | mark l | call l | jump l => exact .inl ⟨l, rfl, unresolved (map_eq_error h)⟩
  | jumpZero l | jumpNegative l =>
      simp only [runFlow] at h
      cases resolved : resolve program l with
      | error g =>
          rw [resolved] at h
          cases h
          exact .inl ⟨l, rfl, unresolved resolved⟩
      | ok place =>
          simp only [resolved, bind, Except.bind, State.branch] at h
          split at h
          · cases h
          · cases h
            exact .inr (.inr ⟨rfl, rfl⟩)
  | ret =>
      simp only [runFlow] at h
      split at h
      · cases h
      · next called =>
        cases h
        exact .inr (.inl ⟨rfl, called, rfl⟩)
  | exit | breakpoint => cases h

/-! ### Instructions that do not complete -/

/-- What a read gives: the code point of a character, or a number. -/
def Reads (port : Input.Port) (r : Input.Outcome Int × Input.Port) : Prop :=
  r = codePoint port.readCharacter ∨ r = port.readNumber

theorem allOrNothing_eq_faulted {r : Except Fault State} (h : m.allOrNothing r = .faulted f m') :
    r = .error f ∧ m' = m := by
  cases r with
  | ok s => cases h
  | error g =>
      cases h
      exact ⟨rfl, rfl⟩

theorem allOrNothing_ne_waiting {r : Except Fault State} : m.allOrNothing r ≠ .waiting m' := by
  cases r <;> nofun

section

variable {address : Nat} {rest : Stack} {r : Input.Outcome Int × Input.Port}

/-- A read that fails changes the port alone. -/
theorem receive_faulted (reads : Reads m.input r) (h : m.receive address rest r = .faulted f m') :
    ∃ e port, f = .input e ∧ Reads m.input (.failed e, port) ∧ m' = { m with input := port } := by
  obtain ⟨o, port⟩ := r
  cases o with
  | failed e =>
      cases h
      exact ⟨e, port, rfl, reads, rfl⟩
  | value n | waiting => cases h

/-- A read that waits changes the port alone. -/
theorem receive_waiting (reads : Reads m.input r) (h : m.receive address rest r = .waiting m') :
    ∃ port, Reads m.input (.waiting, port) ∧ m' = { m with input := port } := by
  obtain ⟨o, port⟩ := r
  cases o with
  | waiting =>
      cases h
      exact ⟨port, reads, rfl⟩
  | value n | failed e => cases h

end

/-- A command of the port fails before it reads, or because the read fails. -/
theorem transfer_faulted {command : PortCommand} (h : m.transfer command = .faulted f m') :
    (f.Plain ∧ m' = m) ∨
      ∃ e port, f = .input e ∧ Reads m.input (.failed e, port) ∧ m' = { m with input := port } := by
  unfold transfer at h
  split at h
  · cases h
    exact .inl ⟨⟨rfl, rfl⟩, rfl⟩
  · cases command with
    | writeCharacter =>
        simp only at h
        split at h
        · cases h
        · cases h
          exact .inl ⟨⟨rfl, rfl⟩, rfl⟩
    | writeNumber => cases h
    | readCharacter =>
        simp only at h
        split at h
        · exact .inr (receive_faulted (.inl rfl) h)
        · next checked =>
          cases h
          exact .inl ⟨plain_of_checkedAddress checked, rfl⟩
    | readNumber =>
        simp only at h
        split at h
        · exact .inr (receive_faulted (.inr rfl) h)
        · next checked =>
          cases h
          exact .inl ⟨plain_of_checkedAddress checked, rfl⟩

/-- Of the commands of the ports only a read waits, and it changes the port alone. -/
theorem transfer_waiting {command : PortCommand} (h : m.transfer command = .waiting m') :
    ∃ port, Reads m.input (.waiting, port) ∧ m' = { m with input := port } := by
  unfold transfer at h
  split at h
  · cases h
  · cases command with
    | writeCharacter =>
        simp only at h
        split at h <;> cases h
    | writeNumber => cases h
    | readCharacter =>
        simp only at h
        split at h
        · exact receive_waiting (.inl rfl) h
        · cases h
    | readNumber =>
        simp only at h
        split at h
        · exact receive_waiting (.inr rfl) h
        · cases h

/-- An instruction that fails has changed nothing, or it is a read and has changed the port alone. -/
theorem perform_faulted (h : m.perform program i = .faulted f m') :
    (f.ofInput = false ∧ m' = m) ∨
      ∃ e port, f = .input e ∧ Reads m.input (.failed e, port) ∧ m' = { m with input := port } := by
  cases i with
  | stack command =>
      rw [perform_stack] at h
      obtain ⟨failed, rfl⟩ := allOrNothing_eq_faulted h
      exact .inl ⟨(plain_of_runStack (map_eq_error failed)).2, rfl⟩
  | arithmetic command =>
      rw [perform_arithmetic] at h
      obtain ⟨failed, rfl⟩ := allOrNothing_eq_faulted h
      exact .inl ⟨(plain_of_runArithmetic (map_eq_error failed)).2, rfl⟩
  | heap command =>
      rw [perform_heap] at h
      obtain ⟨failed, rfl⟩ := allOrNothing_eq_faulted h
      exact .inl ⟨(plain_of_runHeap (map_eq_error failed)).2, rfl⟩
  | flow command =>
      rw [perform_flow] at h
      obtain ⟨failed, rfl⟩ := allOrNothing_eq_faulted h
      refine .inl ⟨?_, rfl⟩
      rcases runFlow_eq_error failed with ⟨l, -, -, rfl⟩ | ⟨-, -, rfl⟩ | plain
      · rfl
      · rfl
      · exact plain.2
  | io command =>
      rw [perform_io] at h
      rcases transfer_faulted h with ⟨plain, rfl⟩ | reading
      · exact .inl ⟨plain.2, rfl⟩
      · exact .inr reading

/-- A fault of control is that of a flow command with a label that no mark defines, or of a return
    without a call. -/
theorem perform_faulted_ofControl (h : m.perform program i = .faulted f m')
    (control : f.ofControl = true) :
    (∃ command l, i = .flow command ∧ command.label? = some l ∧ program.target? l = none ∧
        f = .undefinedLabel l) ∨
      (i = .flow .ret ∧ m.state.calls = [] ∧ f = .returnWithoutCall) := by
  have clash : ¬ f.Plain := by
    rintro ⟨data, -⟩
    rw [control] at data
    cases data
  cases i with
  | stack command =>
      rw [perform_stack] at h
      exact absurd (plain_of_runStack (map_eq_error (allOrNothing_eq_faulted h).1)) clash
  | arithmetic command =>
      rw [perform_arithmetic] at h
      exact absurd (plain_of_runArithmetic (map_eq_error (allOrNothing_eq_faulted h).1)) clash
  | heap command =>
      rw [perform_heap] at h
      exact absurd (plain_of_runHeap (map_eq_error (allOrNothing_eq_faulted h).1)) clash
  | flow command =>
      rw [perform_flow] at h
      rcases runFlow_eq_error (allOrNothing_eq_faulted h).1 with
        ⟨l, label, target, rfl⟩ | ⟨rfl, called, rfl⟩ | plain
      · exact .inl ⟨command, l, rfl, label, target, rfl⟩
      · exact .inr ⟨rfl, called, rfl⟩
      · exact absurd plain clash
  | io command =>
      rw [perform_io] at h
      rcases transfer_faulted h with ⟨plain, -⟩ | ⟨e, port, rfl, -, -⟩
      · exact absurd plain clash
      · cases control

/-- An instruction that has to wait is a read, and it has changed the port alone. -/
theorem perform_waiting (h : m.perform program i = .waiting m') :
    ∃ port, Reads m.input (.waiting, port) ∧ m' = { m with input := port } := by
  cases i with
  | io command =>
      rw [perform_io] at h
      exact transfer_waiting h
  | stack | arithmetic | heap | flow =>
      simp only [perform_stack, perform_arithmetic, perform_heap, perform_flow] at h
      exact absurd h allOrNothing_ne_waiting

end

/-! ### Steps -/

/-- The ways in which a step can end. -/
inductive StepCase (program : Program) (m : Machine) : Outcome × Machine → Prop where
  | halted : m.state.halted = true → StepCase program m (.done, m)
  | completed {i : Instruction} {m' : Machine} : m.state.halted = false →
      program.instruction? m.state.pc = some i → m.perform program i = .completed m' →
      StepCase program m (.done, { m' with state := m'.state.complete program })
  | past : m.state.halted = false → program.instruction? m.state.pc = none →
      StepCase program m (.failed ⟨m.state.pc, none, .noTermination⟩, m)
  | faulted {i : Instruction} {f : Fault} {m' : Machine} : m.state.halted = false →
      program.instruction? m.state.pc = some i → m.perform program i = .faulted f m' →
      StepCase program m (.failed ⟨m.state.pc, some i, f⟩, m')
  | waiting {i : Instruction} {m' : Machine} : m.state.halted = false →
      program.instruction? m.state.pc = some i → m.perform program i = .waiting m' →
      StepCase program m (.waiting, m')

/-- Every step is one of the cases. -/
theorem step_cases (program : Program) (m : Machine) : StepCase program m (m.step program) := by
  unfold step
  cases halted : m.state.halted with
  | true => exact .halted halted
  | false =>
      simp only [Bool.false_eq_true, if_false]
      cases here : program.instruction? m.state.pc with
      | none => exact .past halted here
      | some i =>
          simp only
          cases effect : m.perform program i with
          | completed m' => exact .completed halted here effect
          | faulted f m' => exact .faulted halted here effect
          | waiting m' => exact .waiting halted here effect

section

variable {program : Program} {m m' : Machine} {o : Outcome} {f : Failure}

/-- A step that does not complete leaves everything but the port as it was. -/
theorem step_not_done (h : m.step program = (o, m')) (failing : o ≠ .done) :
    ∃ port, m' = { m with input := port } := by
  have cases := step_cases program m
  rw [h] at cases
  cases cases with
  | halted | completed => exact absurd rfl failing
  | past => exact ⟨_, rfl⟩
  | faulted _ _ performed =>
      rcases perform_faulted performed with ⟨-, rfl⟩ | ⟨e, port, -, -, rfl⟩
      · exact ⟨_, rfl⟩
      · exact ⟨port, rfl⟩
  | waiting _ _ performed =>
      obtain ⟨port, -, rfl⟩ := perform_waiting performed
      exact ⟨port, rfl⟩

/-- A step that does not complete is known by its outcome and by what the port keeps. -/
theorem step_eq_of_not_done {port : Input.Port} (outcome : (m.step program).1 = o)
    (kept : (m.step program).2.input = port) (failing : o ≠ .done) :
    m.step program = (o, { m with input := port }) := by
  rcases stepped : m.step program with ⟨o', m'⟩
  rw [stepped] at outcome kept
  cases outcome
  rcases step_not_done stepped failing with ⟨port', rfl⟩
  cases kept
  rfl

/-- A failure is that of the instruction at the current place. -/
theorem step_failed (h : m.step program = (.failed f, m')) :
    f.pc = m.state.pc ∧ f.instruction? = program.instruction? m.state.pc := by
  have cases := step_cases program m
  rw [h] at cases
  cases cases with
  | past _ here => exact ⟨rfl, here.symm⟩
  | faulted _ here _ => exact ⟨rfl, here.symm⟩

/-- An instruction has been carried out: control has moved, the count of steps has grown, and the machine
    is paused if it was before or has come to a breakpoint. -/
structure Executes (program : Program) (m : Machine) (i : Instruction) (m' : Machine) : Prop where
  running : m.state.halted = false
  here : program.instruction? m.state.pc = some i
  moves : m.state.control.Moves program i m'.state.control
  steps : m'.state.steps = m.state.steps + 1
  paused : m'.state.paused = (m.state.paused || program.isBreakpoint m'.state.pc)

/-- A step that completes carries out an instruction, unless the machine has halted. -/
theorem step_done (h : m.step program = (.done, m')) :
    (m.state.halted = true ∧ m' = m) ∨ ∃ i, m.Executes program i m' := by
  have cases := step_cases program m
  rw [h] at cases
  cases cases with
  | halted halted => exact .inl ⟨halted, rfl⟩
  | completed running here performed =>
      rcases perform_completed performed with ⟨moves, steps, paused⟩
      refine .inr ⟨_, running, here, moves, congrArg (· + 1) steps, ?_⟩
      unfold State.complete
      rw [paused]

end

end Whitespace.Machine

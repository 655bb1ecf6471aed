/-
Module: Whitespace.Proofs.PlainEffects
Purpose: An instruction that does not direct control looks at the stack, the heap and the ports alone, and
  hands control to the following instruction when it completes. What it does is one change, whatever the
  program around it, the place it stands at and the calls under way.
Main exports: Instruction.isFlow, Change, Change.apply, perform_eq_apply
-/
import Whitespace.Proofs.CommandOutcomes

namespace Whitespace

def Instruction.isFlow : Instruction → Bool
  | .flow _ => true
  | _ => false

namespace Machine

/-- What carrying out an instruction comes to, apart from control. -/
inductive Change where
  | made (stack : Stack) (heap : Heap) (input : Input.Port) (output : Output)
  | refused (fault : Fault) (input : Input.Port)
  | stalled (input : Input.Port)

/-- The effect of a change on a machine. -/
def Change.apply (m : Machine) : Change → Effect
  | .made stack heap input output =>
    .completed { state := { m.state with stack, heap }.next, input, output }
  | .refused f input => .faulted f { m with input }
  | .stalled input => .waiting { m with input }

section

variable {stack : Stack} {heap : Heap} {input : Input.Port} {output : Output}

/-- The change that a command makes whose new stack and heap are known, or that it fails to make. -/
def Change.ofExcept (input : Input.Port) (output : Output) : Except Fault (Stack × Heap) → Change
  | .ok (stack, heap) => .made stack heap input output
  | .error f => .refused f input

/-- The change of a read that stores what was read. -/
def Change.ofRead (address : Nat) (stack : Stack) (heap : Heap) (output : Output) :
    Input.Outcome Int × Input.Port → Change
  | (.value n, input) => .made stack (heap.insert address n) input output
  | (.failed e, input) => .refused (.input e) input
  | (.waiting, input) => .stalled input

/-- The change of a read to a place on the stack that is checked before the read starts. -/
def Change.checkedRead (input : Input.Port) (heap : Heap) (output : Output) (place : Int)
    (rest : Stack) (read : Input.Outcome Int × Input.Port) : Change :=
  match checkedAddress place with
  | .ok address => .ofRead address rest heap output read
  | .error f => .refused f input

theorem allOrNothing_eq_apply (m : Machine) (r : Except Fault (Stack × Heap)) :
    m.allOrNothing (r.map fun (stack, heap) => { m.state with stack, heap }.next) =
      (Change.ofExcept m.input m.output r).apply m := by
  cases r <;> rfl

theorem receive_eq_apply (m : Machine) (address : Nat) (rest : Stack)
    (read : Input.Outcome Int × Input.Port) :
    m.receive address rest read =
      (Change.ofRead address rest m.state.heap m.output read).apply m := by
  obtain ⟨outcome, port⟩ := read
  cases outcome <;> rfl

/-- A read with an address is a change of the state and the ports. -/
theorem read_eq_apply (m : Machine) (place : Int) (rest : Stack)
    (read : Input.Outcome Int × Input.Port) :
    (match checkedAddress place with
      | .ok address => m.receive address rest read
      | .error f => .faulted f m) =
      (Change.checkedRead m.input m.state.heap m.output place rest read).apply m := by
  unfold Change.checkedRead
  cases checkedAddress place with
  | ok address => exact receive_eq_apply m address rest read
  | error f => rfl

/-- A command of the ports is a change that depends on the stack, the heap and the ports alone. -/
theorem transfer_eq_apply (command : PortCommand) :
    ∃ change : Change, ∀ m : Machine, m.state.stack = stack → m.state.heap = heap →
      m.input = input → m.output = output → m.transfer command = change.apply m := by
  cases pop : stack.pop? with
  | none =>
      refine ⟨.refused (underflow 1 stack) input, ?_⟩
      rintro m rfl rfl rfl rfl
      simp only [transfer, pop]
      rfl
  | some popped =>
      obtain ⟨a, rest⟩ := popped
      cases command with
      | writeCharacter =>
          cases character : character? a with
          | none =>
              refine ⟨.refused (.invalidCharacter a) input, ?_⟩
              rintro m rfl rfl rfl rfl
              simp only [transfer, pop, character]
              rfl
          | some c =>
              refine ⟨.made rest heap input (output.writeCharacter c), ?_⟩
              rintro m rfl rfl rfl rfl
              simp only [transfer, pop, character]
              rfl
      | writeNumber =>
          refine ⟨.made rest heap input (output.writeNumber a), ?_⟩
          rintro m rfl rfl rfl rfl
          simp only [transfer, pop]
          rfl
      | readCharacter =>
          refine ⟨.checkedRead input heap output a rest (codePoint input.readCharacter), ?_⟩
          rintro m rfl rfl rfl rfl
          simp only [transfer, pop]
          exact read_eq_apply m a rest _
      | readNumber =>
          refine ⟨.checkedRead input heap output a rest input.readNumber, ?_⟩
          rintro m rfl rfl rfl rfl
          simp only [transfer, pop]
          exact read_eq_apply m a rest _

/-- An instruction that does not direct control makes one change, which the stack, the heap and the ports
    determine. -/
theorem perform_eq_apply {i : Instruction} (h : i.isFlow = false) (stack : Stack) (heap : Heap)
    (input : Input.Port) (output : Output) :
    ∃ change : Change, ∀ (program : Program) (m : Machine), m.state.stack = stack →
      m.state.heap = heap → m.input = input → m.output = output →
      m.perform program i = change.apply m := by
  cases i with
  | flow command => cases h
  | io command =>
      obtain ⟨change, spec⟩ := transfer_eq_apply command
      refine ⟨change, ?_⟩
      intro program m sameStack sameHeap sameInput sameOutput
      rw [perform_io, spec m sameStack sameHeap sameInput sameOutput]
  | stack command =>
      refine ⟨.ofExcept input output ((runStack stack command).map fun stack => (stack, heap)), ?_⟩
      rintro program m rfl rfl rfl rfl
      rw [perform_stack, ← allOrNothing_eq_apply]
      cases runStack m.state.stack command <;> rfl
  | arithmetic command =>
      refine ⟨.ofExcept input output ((runArithmetic stack command).map fun stack => (stack, heap)), ?_⟩
      rintro program m rfl rfl rfl rfl
      rw [perform_arithmetic, ← allOrNothing_eq_apply]
      cases runArithmetic m.state.stack command <;> rfl
  | heap command =>
      refine ⟨.ofExcept input output (runHeap stack heap command), ?_⟩
      rintro program m rfl rfl rfl rfl
      rw [perform_heap]
      exact allOrNothing_eq_apply m _

end

end Machine

end Whitespace

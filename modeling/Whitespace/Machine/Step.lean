/-
Module: Whitespace.Machine.Step
Purpose: One step of the machine. A step carries out the instruction at the current place, counts it,
  and pauses the machine when control arrives at a breakpoint. A step that fails or has to wait ends with
  the machine as the instruction has left it; one that has to wait can be tried again.
Main exports: Effect, Outcome, perform, step
-/
import Whitespace.Machine.Command

namespace Whitespace.Machine

/-- How carrying out an instruction ends, with the machine after it. -/
inductive Effect where
  | completed (m : Machine)
  | faulted (f : Fault) (m : Machine)
  | waiting (m : Machine)

/-- Control goes where an instruction at a place sends it. -/
def State.advance (s : State) (pc : Nat) : Advance → State
  | .next => { s with pc := pc + 1 }
  | .goto place => { s with pc := place }
  | .halt => { s with halted := true }

/-- The effect of the work of an instruction at a place: control advances only after work that is done,
    and work that has stopped is left where it is. -/
def Effect.ofRun (pc : Nat) : EStateM.Result Stop Machine Advance → Effect
  | .ok advance m => .completed { m with state := m.state.advance pc advance }
  | .error (.fault f) m => .faulted f m
  | .error .waiting m => .waiting m

def perform (program : Program) (m : Machine) (i : Instruction) : Effect :=
  .ofRun m.state.pc ((Job.instruction program i).run m)

/-- How a step ends. -/
inductive Outcome where
  | done
  | failed (failure : Failure)
  | waiting
deriving Repr, DecidableEq

/-- Counts a completed instruction, and pauses at a breakpoint. -/
def State.complete (program : Program) (s : State) : State :=
  { s with steps := s.steps + 1, paused := s.paused || program.isBreakpoint s.pc }

/-- Carries out one instruction. A machine that has halted stays as it is. -/
def step (program : Program) (m : Machine) : Outcome × Machine :=
  if m.state.halted then (.done, m)
  else
    match program.instruction? m.state.pc with
    | none => (.failed ⟨m.state.pc, none, .noTermination⟩, m)
    | some i =>
      match m.perform program i with
      | .completed m' => (.done, { m' with state := m'.state.complete program })
      | .faulted f m' => (.failed ⟨m.state.pc, some i, f⟩, m')
      | .waiting m' => (.waiting, m')

end Whitespace.Machine

/-
Module: Whitespace.Machine.Command
Purpose: What each command does, in the order in which it does it. A command works on the machine in
  place, and whatever it has done stays done when it stops with a fault or has to wait: nothing is put
  back. It is the order of the checks and the changes that keeps a command from stopping half way.
Main exports: Stop, Job, Advance, checkedAddress, character?, compute, resolve, Job.need, Job.read,
  Job.stack, Job.arithmetic, Job.heap, Job.flow, Job.io, Job.instruction
-/
import Whitespace.Bitwise
import Whitespace.Program
import Whitespace.Machine.Fault
import Whitespace.Machine.State

namespace Whitespace.Machine

/-- Why a command stops before it is done. -/
inductive Stop where
  | fault (f : Fault)
  /-- A read needs more text than there is. -/
  | waiting

/-- A piece of work on a machine. One that stops leaves the machine as it is at that moment. -/
abbrev Job := EStateM Stop Machine

/-- Where control goes after a command. -/
inductive Advance where
  | next
  | goto (place : Nat)
  | halt

/-! ### Checks on values -/

/-- The largest depth that is told apart in messages, `2 ^ 64 - 1`; deeper needs are reported as this
    one. -/
def maxDepth : Nat := 0xffffffffffffffff

/-- The fault of a command that needs more values than the stack holds. -/
def underflow (needed : Nat) (stack : Stack) : Fault :=
  .stackUnderflow (min needed maxDepth) stack.size

/-- The depth or the number of values that the operand of a stack command denotes. -/
def checkedOperand (value : Int) : Except Fault Nat :=
  if value < 0 then .error (.invalidOperand value) else .ok value.toNat

/-- The heap address that a value denotes. -/
def checkedAddress (value : Int) : Except Fault Nat :=
  if value < 0 then .error (.negativeAddress value)
  else if value.toNat ≤ maxAddress then .ok value.toNat
  else .error (.addressTooLarge value)

/-- The character whose code point a value is. -/
def character? (value : Int) : Option Char :=
  if h : 0 ≤ value ∧ value.toNat.isValidChar then
    some (Char.ofNatAux value.toNat h.2)
  else
    none

/-- The result of a command with two operands; the complement takes the second one alone. The quotient
    is rounded down, and the remainder has the sign of the divisor. -/
def compute (a b : Int) : ArithmeticCommand → Except Fault Int
  | .add => .ok (a + b)
  | .subtract => .ok (a - b)
  | .multiply => .ok (a * b)
  | .divide => if b = 0 then .error .divisionByZero else .ok (a.fdiv b)
  | .modulo => if b = 0 then .error .moduloByZero else .ok (a.fmod b)
  | .and => .ok (bitAnd a b)
  | .or => .ok (bitOr a b)
  | .complement => .ok (bitComplement b)

/-- The place a label stands for. -/
def resolve (program : Program) (l : Label) : Except Fault Nat :=
  match program.target? l with
  | some place => .ok place
  | none => .error (.undefinedLabel l)

namespace Job

/-! ### Looking at the machine -/

def fail {α : Type} (f : Fault) : Job α := throw (.fault f)

/-- Goes on with the result of a check, or stops with its fault. -/
def check {α : Type} : Except Fault α → Job α
  | .ok a => return a
  | .error f => fail f

/-- Stops unless the stack holds as many values. -/
def need (count : Nat) : Job Unit := do
  let stack := (← get).state.stack
  if stack.size < count then fail (underflow count stack)

/-- The value at a depth, the top having depth 0. Every command makes sure of the depth before. -/
def value (depth : Nat) : Job Int := do
  return ((← get).state.stack.get? depth).getD 0

/-! ### Changing it -/

def push (a : Int) : Job Unit :=
  modify fun m => { m with state.stack := m.state.stack.push a }

def drop (count : Nat) : Job Unit :=
  modify fun m => { m with state.stack := m.state.stack.drop count }

def store (address : Nat) (a : Int) : Job Unit :=
  modify fun m => { m with state.heap := m.state.heap.insert address a }

def write (writes : Output → Output) : Job Unit :=
  modify fun m => { m with output := writes m.output }

/-- Tries a read. The port is kept as the read leaves it, however the read ends. -/
def read {α : Type} (reads : Input.Port → Input.Outcome α × Input.Port) : Job α := fun m =>
  match reads m.input with
  | (.value a, input) => .ok a { m with input }
  | (.failed e, input) => .error (.fault (.input e)) { m with input }
  | (.waiting, input) => .error .waiting { m with input }

/-! ### Commands -/

/-- Carries out a stack command. -/
def stack : StackCommand → Job Advance
  | .push a => do
    push a
    return .next
  | .duplicate => do
    need 1
    push (← value 0)
    return .next
  | .copy index => do
    let depth ← check (checkedOperand index)
    need (depth + 1)
    push (← value depth)
    return .next
  | .swap => do
    need 2
    let b ← value 0
    let a ← value 1
    drop 2
    push b
    push a
    return .next
  | .discard => do
    need 1
    drop 1
    return .next
  | .slide count => do
    let covered ← check (checkedOperand count)
    need (covered + 1)
    let a ← value 0
    drop (covered + 1)
    push a
    return .next

/-- Carries out an arithmetic command. The complement looks at the top alone. -/
def arithmetic (command : ArithmeticCommand) : Job Advance := do
  let arity := if command = .complement then 1 else 2
  need arity
  let a ← value (arity - 1)
  let b ← value 0
  let result ← check (compute a b command)
  drop arity
  push result
  return .next

/-- Carries out a heap command. -/
def heap : HeapCommand → Job Advance
  | .store => do
    need 2
    let address ← check (checkedAddress (← value 1))
    let a ← value 0
    drop 2
    store address a
    return .next
  | .retrieve => do
    need 1
    let address ← check (checkedAddress (← value 0))
    match (← get).state.heap[address]? with
    | some a =>
      drop 1
      push a
      return .next
    | none => fail (.uninitializedAddress address)

/-- Takes the top, and sends control to a place when the top passes the test. -/
def branch (target : Nat) (test : Int → Bool) : Job Advance := do
  need 1
  let a ← value 0
  drop 1
  return if test a then .goto target else .next

/-- Carries out a flow command. A label is looked up before anything else happens, that of a mark too. -/
def flow (program : Program) (command : FlowCommand) : Job Advance := do
  let target ← match command.label? with
    | some l => check (resolve program l)
    | none => pure 0
  match command with
  | .mark _ | .breakpoint => return .next
  | .call _ =>
    modify fun m => { m with state.calls := (m.state.pc + 1) :: m.state.calls }
    return .goto target
  | .jump _ => return .goto target
  | .jumpZero _ => branch target (· = 0)
  | .jumpNegative _ => branch target (· < 0)
  | .ret =>
    match (← get).state.calls with
    | place :: rest =>
      modify fun m => { m with state.calls := rest }
      return .goto place
    | [] => fail .returnWithoutCall
  | .exit => return .halt

/-- Carries out an input or output command. The address of a read is checked before the read starts, and
    taken off the stack only once the read has brought something. -/
def io (command : PortCommand) : Job Advance := do
  need 1
  let a ← value 0
  match command with
  | .writeCharacter =>
    match character? a with
    | some c =>
      drop 1
      write (·.writeCharacter c)
      return .next
    | none => fail (.invalidCharacter a)
  | .writeNumber =>
    drop 1
    write (·.writeNumber a)
    return .next
  | .readCharacter =>
    let address ← check (checkedAddress a)
    let c ← read Input.Port.readCharacter
    drop 1
    store address c.toNat
    return .next
  | .readNumber =>
    let address ← check (checkedAddress a)
    let n ← read Input.Port.readNumber
    drop 1
    store address n
    return .next

/-- Carries out an instruction, up to where control goes. -/
def instruction (program : Program) : Instruction → Job Advance
  | .stack command => stack command
  | .arithmetic command => arithmetic command
  | .heap command => heap command
  | .flow command => flow program command
  | .io command => io command

end Job

end Whitespace.Machine

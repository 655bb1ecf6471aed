/-
Module: Whitespace.Proofs.LineMachine
Purpose: The assembly language as a machine of its own. Its programs are lists of lines, its places are
  positions in that list, and one step carries out one whole line, whatever number of instructions the
  line is lowered to. A label stands for the position after the last line that defines it.
Main exports: LineProgram, LineProgram.ofLines, LineProgram.labelPlace?, Configuration,
  Configuration.obey, writeText, LineProgram.perform, LineProgram.step?, LineProgram.run?
-/
import Whitespace.Assembly.Lowering
import Whitespace.Machine.Step
import Whitespace.Proofs.Targets

namespace Whitespace

open Assembly

/-! ### Configurations -/

/-- All that a program can observe of a machine, and the place of the next thing to do. Both the
    machine that runs instructions and the machine that runs lines have configurations; their places
    and the places their calls go back to are counted in instructions and in lines. -/
structure Configuration where
  stack : Machine.Stack := .empty
  heap : Machine.Heap := ∅
  calls : List Nat := []
  place : Nat := 0
  halted : Bool := false
  input : Input.Port
  output : Output := {}

namespace Machine

/-- The configuration of a machine: the count of its steps and its pause are left out. -/
def configuration (m : Machine) : Configuration where
  stack := m.state.stack
  heap := m.state.heap
  calls := m.state.calls
  place := m.state.pc
  halted := m.state.halted
  input := m.input
  output := m.output

end Machine

namespace Configuration

def machine (c : Configuration) : Machine where
  state := { stack := c.stack, heap := c.heap, calls := c.calls, pc := c.place, halted := c.halted }
  input := c.input
  output := c.output

def next (c : Configuration) : Configuration := { c with place := c.place + 1 }

def goto (c : Configuration) (place : Nat) : Configuration := { c with place }

def push (c : Configuration) (a : Int) : Configuration := { c with stack := c.stack.push a }

def pop? (c : Configuration) : Option (Int × Configuration) :=
  c.stack.pop?.map fun (a, stack) => (a, { c with stack })

/-- Carries out a single instruction, unless it fails or has to wait. -/
def obey (program : Program) (c : Configuration) (i : Instruction) : Option Configuration :=
  match c.machine.perform program i with
  | .completed m => some m.configuration
  | .faulted _ _ | .waiting _ => none

end Configuration

namespace Assembly

/-! ### Programs of lines -/

/-- A program of lines: for each line the statement it makes, if it makes one. -/
abbrev LineProgram := List (Option Statement)

namespace LineProgram

/-- The program that lines make. Variables are known from the lines before; a line without a statement
    of its own is an empty one. -/
def ofLines (options : Options) : Variables → List Line → LineProgram
  | _, [] => []
  | vs, l :: rest =>
    match Statement.ofLine options vs l with
    | .ok (some s) => some s :: ofLines options (s.applyTo vs) rest
    | .ok none | .error _ => none :: ofLines options vs rest

/-- The position just after the last line that defines a label. -/
def labelPlace? (p : LineProgram) (name : String) : Option Nat :=
  positionAfterLast? (· = some (.label name)) p

end LineProgram

/-- Does a value taken off the stack satisfy the condition of a jump? -/
def Condition.holds : Condition → Int → Bool
  | .always, _ => true
  | .zero, v => v = 0
  | .negative, v => v < 0
  | .positive, v => 0 < v
  | .notPositive, v => v ≤ 0
  | .notNegative, v => 0 ≤ v
  | .notZero, v => v ≠ 0

/-- Writes characters into the cells from an address on. -/
def writeText (heap : Machine.Heap) (address : Int) : List Char → Option Machine.Heap
  | [] => some heap
  | c :: rest =>
    match Machine.checkedAddress address with
    | .ok cell => writeText (heap.insert cell c.toNat) (address + 1) rest
    | .error _ => none

/-! ### Steps -/

namespace LineProgram

/-- Carries out an instruction that has no label. -/
def instruct (c : Configuration) (i : Instruction) : Option Configuration :=
  c.obey (Program.ofInstructions []) i

/-- Carries out a statement, unless it fails or has to wait. An operand that the line gives takes the
    place of one from the stack. -/
def perform (p : LineProgram) (c : Configuration) : Statement → Option Configuration
  | .push n => some (c.push n).next
  | .copy n => instruct c (.stack (.copy n))
  | .slide n => instruct c (.stack (.slide n))
  | .arithmetic command none => instruct c (.arithmetic command)
  | .arithmetic command (some n) => instruct (c.push n) (.arithmetic command)
  | .store none => instruct c (.heap .store)
  | .store (some n) =>
    match c.pop?, Machine.checkedAddress n with
    | some (value, c), .ok address => some { c with heap := c.heap.insert address value }.next
    | _, _ => none
  | .retrieve none => instruct c (.heap .retrieve)
  | .retrieve (some n) =>
    match Machine.checkedAddress n with
    | .ok address => c.heap[address]?.map fun value => (c.push value).next
    | .error _ => none
  | .storeString text =>
    match c.pop? with
    | some (address, c) =>
      (writeText c.heap address (text.toList ++ ['\x00'])).map fun heap => { c with heap }.next
    | none => none
  | .label _ | .define _ _ => some c.next
  | .call name =>
    (p.labelPlace? name).map fun place => { c with calls := (c.place + 1) :: c.calls, place }
  | .jump .always name => (p.labelPlace? name).map c.goto
  | .jump condition name =>
    match c.pop?, p.labelPlace? name with
    | some (v, c), some place => some (if condition.holds v then c.goto place else c.next)
    | _, _ => none
  | .plain i => instruct c i

/-- One step: the line at the place of the configuration. A configuration that has halted stays as it
    is, and running off the end is a failure. -/
def step? (p : LineProgram) (c : Configuration) : Option Configuration :=
  if c.halted then some c
  else
    match p[c.place]? with
    | none => none
    | some none => some c.next
    | some (some s) => p.perform c s

/-- As many steps as given, if none of them fails. -/
def run? (p : LineProgram) : Nat → Configuration → Option Configuration
  | 0, c => some c
  | n + 1, c => (p.step? c).bind (p.run? n)

end LineProgram

end Assembly

end Whitespace

/-
Module: Whitespace.Instruction
Purpose: The instruction set of the stack machine. Every instruction belongs to one of five
  categories, told apart by the first symbols of its code: the stack, arithmetic, the heap, the flow
  of control, and input and output. Operands are integers of any size and labels are natural numbers
  of any size.
Main exports: Category, Label, StackCommand, ArithmeticCommand, HeapCommand, FlowCommand,
  PortCommand, Instruction, Instruction.mnemonic
-/

namespace Whitespace

/-- The five groups into which the instruction set falls. -/
inductive Category where
  | stack
  | arithmetic
  | heap
  | flow
  | io
deriving Repr, DecidableEq, Inhabited

/-- The name by which messages call a category. -/
def Category.name : Category → String
  | .stack => "stack"
  | .arithmetic => "arithmetic"
  | .heap => "heap"
  | .flow => "flow"
  | .io => "io"

/-- A place in a program that control can be sent to. -/
structure Label where
  number : Nat
deriving Repr, DecidableEq, Inhabited

/-- The name by which listings and messages call a label. -/
def Label.name (l : Label) : String := s!"label_{l.number}"

/-- Commands that rearrange the stack. -/
inductive StackCommand where
  /-- Puts a number on the stack. -/
  | push (value : Int)
  /-- Repeats the top. -/
  | duplicate
  /-- Repeats the value that stands `index` places below the top. -/
  | copy (index : Int)
  /-- Exchanges the two topmost values. -/
  | swap
  /-- Removes the top. -/
  | discard
  /-- Removes `count` values from below the top, which stays. -/
  | slide (count : Int)
deriving Repr, DecidableEq

/-- Commands that compute. All but `complement` take two values, the right operand on top. -/
inductive ArithmeticCommand where
  | add
  | subtract
  | multiply
  | divide
  | modulo
  | and
  | or
  | complement
deriving Repr, DecidableEq

/-- Commands that move values between the stack and the heap. -/
inductive HeapCommand where
  | store
  | retrieve
deriving Repr, DecidableEq

/-- Commands that direct control. -/
inductive FlowCommand where
  /-- The place a label stands for. -/
  | mark (label : Label)
  | call (label : Label)
  | jump (label : Label)
  | jumpZero (label : Label)
  | jumpNegative (label : Label)
  /-- Goes back to the instruction after the latest call. -/
  | ret
  | exit
  /-- Does nothing but ask for a breakpoint at its own place. -/
  | breakpoint
deriving Repr, DecidableEq

/-- The label that a flow command refers to or marks, if it has one. -/
def FlowCommand.label? : FlowCommand → Option Label
  | .mark l | .call l | .jump l | .jumpZero l | .jumpNegative l => some l
  | .ret | .exit | .breakpoint => none

/-- Commands that write to the output or read from the input. -/
inductive PortCommand where
  | writeCharacter
  | writeNumber
  | readCharacter
  | readNumber
deriving Repr, DecidableEq

/-- One instruction of a program. -/
inductive Instruction where
  | stack (command : StackCommand)
  | arithmetic (command : ArithmeticCommand)
  | heap (command : HeapCommand)
  | flow (command : FlowCommand)
  | io (command : PortCommand)
deriving Repr, DecidableEq

instance : Inhabited Instruction := ⟨.flow .exit⟩

namespace Instruction

/-- The group an instruction belongs to. -/
def category : Instruction → Category
  | .stack _ => .stack
  | .arithmetic _ => .arithmetic
  | .heap _ => .heap
  | .flow _ => .flow
  | .io _ => .io

def isCall : Instruction → Bool
  | .flow (.call _) => true
  | _ => false

def isReturn : Instruction → Bool
  | .flow .ret => true
  | _ => false

end Instruction

/-- The short name of a stack command, with its operand. -/
def StackCommand.mnemonic : StackCommand → String
  | .push value => s!"push {value}"
  | .duplicate => "dup"
  | .copy index => s!"copy {index}"
  | .swap => "swap"
  | .discard => "pop"
  | .slide count => s!"slide {count}"

/-- The short name of an arithmetic command. -/
def ArithmeticCommand.mnemonic : ArithmeticCommand → String
  | .add => "add"
  | .subtract => "sub"
  | .multiply => "mul"
  | .divide => "div"
  | .modulo => "mod"
  | .and => "and"
  | .or => "or"
  | .complement => "not"

def HeapCommand.mnemonic : HeapCommand → String
  | .store => "store"
  | .retrieve => "retrieve"

/-- The short name of a flow command, with its label. -/
def FlowCommand.mnemonic : FlowCommand → String
  | .mark l => "mark " ++ l.name
  | .call l => "call " ++ l.name
  | .jump l => "jmp " ++ l.name
  | .jumpZero l => "jmpz " ++ l.name
  | .jumpNegative l => "jmpn " ++ l.name
  | .ret => "ret"
  | .exit => "exit"
  | .breakpoint => "dbg"

/-- The short name of an input or output command. -/
def PortCommand.mnemonic : PortCommand → String
  | .writeCharacter => "outc"
  | .writeNumber => "outn"
  | .readCharacter => "readc"
  | .readNumber => "readn"

/-- The text by which listings and messages show an instruction. -/
def Instruction.mnemonic : Instruction → String
  | .stack command => command.mnemonic
  | .arithmetic command => command.mnemonic
  | .heap command => command.mnemonic
  | .flow command => command.mnemonic
  | .io command => command.mnemonic

end Whitespace

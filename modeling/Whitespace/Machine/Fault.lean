/-
Module: Whitespace.Machine.Fault
Purpose: The ways in which an instruction can fail, and the report of a failure.
Main exports: Fault, Fault.message, Failure, Failure.message
-/
import Whitespace.Instruction
import Whitespace.Input.Port

namespace Whitespace.Machine

/-- Why an instruction cannot be completed. -/
inductive Fault where
  | divisionByZero
  | moduloByZero
  /-- The stack is not as deep as the instruction needs. -/
  | stackUnderflow (needed available : Nat)
  /-- The operand of a stack command is negative. -/
  | invalidOperand (value : Int)
  | negativeAddress (value : Int)
  | addressTooLarge (value : Int)
  /-- The cell was never written. -/
  | uninitializedAddress (address : Nat)
  /-- A return with no call to go back to. -/
  | returnWithoutCall
  | undefinedLabel (label : Label)
  /-- Control has run off the end of the program. -/
  | noTermination
  /-- The number is not the code point of a character. -/
  | invalidCharacter (value : Int)
  | input (error : Input.Error)
deriving Repr, DecidableEq

/-- What is wrong, in words. -/
def Fault.message : Fault → String
  | .divisionByZero => "division by zero"
  | .moduloByZero => "modulo by zero"
  | .stackUnderflow needed available =>
    s!"stack underflow: needs {needed} values, has {available}"
  | .invalidOperand value => s!"invalid operand {value}"
  | .negativeAddress value => s!"negative heap address {value}"
  | .addressTooLarge value => s!"heap address {value} is out of range"
  | .uninitializedAddress address => s!"heap address {address} was never written"
  | .returnWithoutCall => "return without a call"
  | .undefinedLabel label => "undefined " ++ label.name
  | .noTermination => "program ended without exit"
  | .invalidCharacter value => s!"{value} is not a valid character"
  | .input error => "input failed: " ++ error.message

/-- A fault, with the place it was met at and the instruction there, if there is one. -/
structure Failure where
  pc : Nat
  instruction? : Option Instruction
  fault : Fault
deriving Repr, DecidableEq

def Failure.message (f : Failure) : String :=
  match f.instruction? with
  | some i => s!"{i.mnemonic} at {f.pc} failed: {f.fault.message}"
  | none => s!"at {f.pc}: {f.fault.message}"

end Whitespace.Machine

/-
Module: Whitespace.Machine.State
Purpose: All that changes inside the machine while a program runs: the stack, the heap, the places to
  go back to, the place of the next instruction, the flags, and the count of completed instructions.
  A machine is such a state with the port it reads from and the output it writes.
Main exports: Heap, State, maxAddress, Machine
-/
import Std.Data.TreeMap
import Whitespace.Input.Port
import Whitespace.Output
import Whitespace.Machine.Stack

namespace Whitespace

namespace Machine

/-- The cells that have been written, by their addresses. -/
abbrev Heap := Std.TreeMap Nat Int

/-- The largest address a program may use, `2 ^ 53 - 1`. -/
def maxAddress : Nat := 0x1fffffffffffff

/-- The state of a machine. A fresh one is about to run the first instruction, with nothing on the
    stack and no cell written; it is paused until something runs it. -/
structure State where
  stack : Stack := .empty
  heap : Heap := ∅
  /-- The places where the routines under way go back to, the innermost first. -/
  calls : List Nat := []
  /-- The place of the next instruction. -/
  pc : Nat := 0
  halted : Bool := false
  paused : Bool := true
  /-- The number of instructions completed so far. -/
  steps : Nat := 0

end Machine

/-- A machine: its state, the port it reads from and the output it writes. -/
structure Machine where
  state : Machine.State := {}
  input : Input.Port
  output : Output := {}

end Whitespace

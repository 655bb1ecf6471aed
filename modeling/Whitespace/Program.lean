/-
Module: Whitespace.Program
Purpose: A program that is ready to run: its instructions, the places its labels stand for, and its
  breakpoints. A label stands for the place after the instruction that marks it, and the last of
  several marks counts. Only the breakpoints can be changed.
Main exports: Program, Program.ofInstructions, Program.instruction?, Program.target?,
  Program.isBreakpoint, Program.toggleBreakpoint, Program.listing
-/
import Std.Data.TreeMap
import Std.Data.TreeSet
import Whitespace.Bytecode.Parser

namespace Whitespace

/-- Instructions with their labels resolved and a set of breakpoints, all places being counted from
    0 in instructions. -/
structure Program where
  instructions : Array Instruction
  targets : Std.TreeMap Nat Nat
  breakpoints : Std.TreeSet Nat

namespace Program

/-- The places of the labels that the instructions mark, the first instruction having the given
    place. -/
def collectTargets : Nat → List Instruction → Std.TreeMap Nat Nat → Std.TreeMap Nat Nat
  | _, [], targets => targets
  | place, .flow (.mark l) :: rest, targets =>
    collectTargets (place + 1) rest (targets.insert l.number (place + 1))
  | place, _ :: rest, targets => collectTargets (place + 1) rest targets

/-- The places of the breakpoint markers, the first instruction having the given place. -/
def collectBreakpoints : Nat → List Instruction → Std.TreeSet Nat → Std.TreeSet Nat
  | _, [], breakpoints => breakpoints
  | place, .flow .breakpoint :: rest, breakpoints =>
    collectBreakpoints (place + 1) rest (breakpoints.insert place)
  | place, _ :: rest, breakpoints => collectBreakpoints (place + 1) rest breakpoints

/-- Makes instructions ready to run. Every breakpoint marker sets a breakpoint at its own place. -/
def ofInstructions (instructions : List Instruction) : Program where
  instructions := instructions.toArray
  targets := collectTargets 0 instructions ∅
  breakpoints := collectBreakpoints 0 instructions ∅

def ofText (text : String) : Except ParseError Program :=
  (parseProgram text).map ofInstructions

def size (p : Program) : Nat := p.instructions.size

def isEmpty (p : Program) : Bool := p.instructions.isEmpty

/-- The instruction at a place, if the program reaches that far. -/
def instruction? (p : Program) (place : Nat) : Option Instruction :=
  p.instructions[place]?

/-- The place where control goes on after a jump to the label. -/
def target? (p : Program) (l : Label) : Option Nat :=
  p.targets[l.number]?

def isBreakpoint (p : Program) (place : Nat) : Bool :=
  p.breakpoints.contains place

/-- Sets the breakpoint at a place, or removes it when there is one. The place need not hold an
    instruction. -/
def toggleBreakpoint (p : Program) (place : Nat) : Program :=
  if p.isBreakpoint place then
    { p with breakpoints := p.breakpoints.erase place }
  else
    { p with breakpoints := p.breakpoints.insert place }

/-- A number at the right end of a field that is at least five characters wide. -/
def alignedPlace (place : Nat) : String :=
  let digits := toString place
  String.ofList (List.replicate (5 - digits.length) ' ') ++ digits

/-- The line that shows the instruction at a place. Breakpoints have a star. -/
def listingLine (p : Program) (place : Nat) (i : Instruction) : String :=
  let star := if p.isBreakpoint place then "*" else " "
  star ++ alignedPlace place ++ "  " ++ i.mnemonic ++ "\n"

def listing (p : Program) : String :=
  String.join (p.instructions.toList.zipIdx.map fun (i, place) => p.listingLine place i)

end Program

end Whitespace

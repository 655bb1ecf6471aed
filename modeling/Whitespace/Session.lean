/-
Module: Whitespace.Session
Purpose: An interactive run of one program. A session holds the program with its breakpoints, the
  machine, and a flag that asks the run under way to stop. Input can be supplied, ended and called off
  at any time, also while a run waits for it.
Main exports: Session, Session.start, Session.ofProgram, Session.feed, Session.close, Session.cancel,
  Session.interrupt, Session.toggleBreakpoint, Session.restart, Session.takeOutput
-/
import Whitespace.Machine.Step

namespace Whitespace

/-- A program, the machine that runs it, and the flag that asks a run to stop. -/
structure Session where
  program : Program
  machine : Machine
  interrupted : Bool := false

namespace Session

/-- A session over a source of input, in a given state. -/
def start (program : Program) (source : Input.Source) (state : Machine.State) : Session :=
  { program, machine := { state, input := { source } } }

/-- A session whose input is fed. -/
def ofProgram (program : Program) : Session :=
  start program .fresh {}

def state (s : Session) : Machine.State := s.machine.state

/-- Everything that was written since the session started or was restarted. -/
def output (s : Session) : String := s.machine.output.text

def mapState (s : Session) (change : Machine.State → Machine.State) : Session :=
  { s with machine := { s.machine with state := change s.machine.state } }

def mapFeed (s : Session) (change : Input.Feed → Input.Feed) : Session :=
  let port := s.machine.input
  { s with machine := { s.machine with input := { port with source := port.source.mapFeed change } } }

def feed (s : Session) (text : String) : Session := s.mapFeed (·.feed text)

def close (s : Session) : Session := s.mapFeed Input.Feed.close

/-- Calls off the read that waits, and forgets input that no read has asked for. -/
def cancel (s : Session) : Session := s.mapFeed Input.Feed.cancel

def isWaiting (s : Session) : Bool := s.machine.input.source.isWaiting

/-- Asks the run under way, or the next one, to stop. -/
def interrupt (s : Session) : Session := { s with interrupted := true }

def clearInterrupt (s : Session) : Session := { s with interrupted := false }

def toggleBreakpoint (s : Session) (place : Nat) : Session :=
  { s with program := s.program.toggleBreakpoint place }

/-- The output since the last time, and the session with that handed out. -/
def takeOutput (s : Session) : String × Session :=
  let (text, output) := s.machine.output.take
  (text, { s with machine := { s.machine with output } })

/-- Gives the run under way up. A read that waits is dropped, and the machine stays as it is. -/
def abandon (s : Session) : Session :=
  { s with machine := { s.machine with input := s.machine.input.abandon } }

/-- Puts everything but the breakpoints back to the start. Input that was fed is forgotten. -/
def restart (s : Session) : Session :=
  let s' := s.cancel
  { program := s'.program, machine := { input := s'.machine.input.clear } }

/-- The values of the stack from the bottom to the top, with a space between neighbours. -/
def stackText (s : Session) : String :=
  String.intercalate " " (s.state.stack.toList.reverse.map toString)

/-- The written cells in the order of their addresses, one a line. -/
def heapText (s : Session) : String :=
  String.join (s.state.heap.toList.map fun (address, value) => s!"{address}: {value}\n")

end Session

end Whitespace

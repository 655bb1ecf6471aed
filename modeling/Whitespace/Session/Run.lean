/-
Module: Whitespace.Session.Run
Purpose: The ways to run a session. Each is a sequence of single steps that ends when its aim is
  reached, when a step fails, or when a step has to wait for input. A run that waits can be taken up
  again where it was left or given up. A debugger that cannot keep a run gives it up as soon as it waits.
Main exports: Command, Aim, Run, Turn, Session.begin, Session.turn, Progress, Session.advance,
  Session.launch, Session.attempt
-/
import Whitespace.Session

namespace Whitespace.Session

/-- What the user of a session can ask for. -/
inductive Command where
  /-- One instruction. -/
  | step
  /-- All instructions until the machine halts, whatever breakpoints there are. -/
  | run
  /-- Instructions until the machine halts or arrives at a breakpoint. -/
  | runUntilPause
  /-- One instruction, a call being carried out together with the routine it enters. -/
  | stepOver
  /-- Instructions until the routine under way returns. -/
  | stepOut
deriving Repr, DecidableEq

/-- What a run still has to reach. -/
inductive Aim where
  /-- The end of one step. -/
  | single
  /-- A machine that has halted. -/
  | halt
  /-- A machine that has halted or is paused. -/
  | pause
  /-- The end of as many routines as `depth` counts: calls on the way add one and returns take one
      away. -/
  | leave (depth : Nat)
  /-- The end of the routine that the next step, a call, enters. -/
  | callee
deriving Repr, DecidableEq

/-- A run under way. It is resumed when its latest step had to wait; that step is then tried again
    without asking first whether the run should go on. -/
structure Run where
  aim : Aim
  resumed : Bool := false
deriving Repr, DecidableEq

def atCall (s : Session) : Bool :=
  match s.program.instruction? s.state.pc with
  | some i => i.isCall
  | none => false

def unpause (s : Session) : Session :=
  s.mapState fun state => { state with paused := false }

/-- Starts a run. All ways to run clear the pause, but for single steps and `run`, which has no
    regard for it. -/
def begin (s : Session) : Command → Run × Session
  | .step => (⟨.single, false⟩, s)
  | .run => (⟨.halt, false⟩, s)
  | .runUntilPause => (⟨.pause, false⟩, s.unpause)
  | .stepOut => (⟨.leave 1, false⟩, s.unpause)
  | .stepOver => if s.atCall then (⟨.callee, false⟩, s.unpause) else (⟨.single, false⟩, s)

theorem begin_stepOver_of_atCall {s : Session} (call : s.atCall = true) :
    s.begin .stepOver = (⟨.callee, false⟩, s.unpause) := by
  unfold begin
  rw [call]
  rfl

theorem begin_stepOver_of_not_atCall {s : Session} (other : s.atCall = false) :
    s.begin .stepOver = (⟨.single, false⟩, s) := by
  unfold begin
  rw [other]
  rfl

/-- Is the aim already reached? -/
def Aim.reached (state : Machine.State) : Aim → Bool
  | .single | .callee => false
  | .halt => state.halted
  | .pause => state.halted || state.paused
  | .leave depth => state.halted || state.paused || depth = 0

/-- Does the run look at the wish to stop before its next step? -/
def Aim.heedsInterrupt : Aim → Bool
  | .single | .callee => false
  | .halt | .pause | .leave _ => true

/-- The depth of routines still to be left once the instruction at the current place is completed. -/
def depthAfter (s : Session) (depth : Nat) : Nat :=
  match s.program.instruction? s.state.pc with
  | some i => if i.isCall then depth + 1 else if i.isReturn then depth - 1 else depth
  | none => depth

/-- What remains to be reached after a completed step, if anything. -/
def Aim.afterStep (before after : Session) : Aim → Option Aim
  | .single => none
  | .halt => some .halt
  | .pause => some .pause
  | .leave depth => some (.leave (before.depthAfter depth))
  | .callee => if after.state.paused || after.state.halted then none else some (.leave 1)

/-- How one turn of a run ends. -/
inductive Turn where
  | finished
  | failed (failure : Machine.Failure)
  | waiting (run : Run)
  | onward (run : Run)
deriving Repr, DecidableEq

/-- Carries out the next step of a run. -/
def takeStep (s : Session) (aim : Aim) : Turn × Session :=
  let (outcome, machine) := s.machine.step s.program
  let s' := { s with machine }
  match outcome with
  | .failed failure => (.failed failure, s')
  | .waiting => (.waiting ⟨aim, true⟩, s')
  | .done =>
    match aim.afterStep s s' with
    | some aim' => (.onward ⟨aim', false⟩, s')
    | none => (.finished, s')

/-- One turn of a run: ends it when its aim is reached or when it is asked to stop, and else carries
    out a step. Being stopped uses the wish up. -/
def turn (s : Session) (run : Run) : Turn × Session :=
  if run.resumed then s.takeStep run.aim
  else if run.aim.reached s.state then (.finished, s)
  else if run.aim.heedsInterrupt && s.interrupted then (.finished, s.clearInterrupt)
  else s.takeStep run.aim

/-- How far a run has come. -/
inductive Progress where
  | finished
  | failed (failure : Machine.Failure)
  | waiting (run : Run)
  /-- The run has used up the turns it was given. -/
  | unfinished (run : Run)
deriving Repr, DecidableEq

/-- Takes turns until the run ends or waits, at most as many as given. -/
def advance : Nat → Run → Session → Progress × Session
  | 0, run, s => (.unfinished run, s)
  | turns + 1, run, s =>
    match s.turn run with
    | (.finished, s') => (.finished, s')
    | (.failed failure, s') => (.failed failure, s')
    | (.waiting run', s') => (.waiting run', s')
    | (.onward run', s') => advance turns run' s'

/-- Starts a run and takes turns. -/
def launch (turns : Nat) (s : Session) (command : Command) : Progress × Session :=
  let (run, s') := s.begin command
  advance turns run s'

/-- Starts a run and takes turns, but gives the run up if it has to wait. Whoever asks for this asks again
    when there is more input, which starts the command anew. -/
def attempt (turns : Nat) (s : Session) (command : Command) : Progress × Session :=
  match launch turns s command with
  | (.waiting run, s') => (.waiting run, s'.abandon)
  | result => result

end Whitespace.Session

/-
Module: Whitespace.Proofs.History
Purpose: Histories of a session. A run is carried on one turn at a time, so that input can arrive and the
  wish to stop can be raised between any two of its steps; what needs the session as a whole has to wait
  until no run is under way. Whatever happens comes to one of a few changes, and what all of these keep
  holds at every moment of every history.
Main exports: stepped, Event, Moment, Moment.after, follow, Moment.Fails, Quiet, Changed, changed_after,
  quiet_after, follow_invariant
-/
import Whitespace.Proofs.RemainingInput
import Whitespace.Proofs.StepCases
import Whitespace.Session.Run

namespace Whitespace

/-- Only the breakpoints of a program can be changed. -/
theorem Program.exists_toggleBreakpoint (program : Program) (place : Nat) :
    ∃ breakpoints, program.toggleBreakpoint place = { program with breakpoints } := by
  unfold toggleBreakpoint
  split <;> exact ⟨_, rfl⟩

namespace Session

/-- The session after a step, however the step ends. -/
def stepped (s : Session) : Session :=
  { s with machine := (s.machine.step s.program).2 }

/-- What can happen to a session. -/
inductive Event where
  /-- A run is started. -/
  | call (command : Command)
  /-- The run under way takes its next turn. -/
  | turn
  /-- The run under way, which waits, is given up. -/
  | giveUp
  | toggle (place : Nat)
  | interrupt
  | clearInterrupt
  | input (a : Input.Action)
  | takeOutput
  | restart
deriving Repr, DecidableEq

/-- Does the event neither touch the input nor hand out output nor restart the session? -/
def Event.isDebugging : Event → Bool
  | .call _ | .turn | .toggle _ | .interrupt | .clearInterrupt => true
  | .giveUp | .input _ | .takeOutput | .restart => false

def Turn.run? : Turn → Option Run
  | .finished | .failed _ => none
  | .waiting run | .onward run => some run

/-- A session and the run that is under way in it, if there is one. -/
structure Moment where
  session : Session
  run? : Option Run := none

namespace Moment

def whenIdle (x : Moment) (change : Session → Session) : Moment :=
  match x.run? with
  | none => { x with session := change x.session }
  | some _ => x

/-- The moment after an event. An event that has to wait for the end of a run, or that needs a run where
    there is none, does nothing. -/
def after (x : Moment) : Event → Moment
  | .call command =>
    match x.run? with
    | none => let (run, s) := x.session.begin command; ⟨s, some run⟩
    | some _ => x
  | .turn =>
    match x.run? with
    | none => x
    | some run => let (t, s) := x.session.turn run; ⟨s, t.run?⟩
  | .giveUp =>
    match x.run? with
    | some ⟨_, true⟩ => ⟨x.session.abandon, none⟩
    | _ => x
  | .toggle place => x.whenIdle (·.toggleBreakpoint place)
  | .interrupt => { x with session := x.session.interrupt }
  | .clearInterrupt => { x with session := x.session.clearInterrupt }
  | .input a => { x with session := x.session.mapFeed (·.act a) }
  | .takeOutput => x.whenIdle fun s => s.takeOutput.2
  | .restart => x.whenIdle Session.restart

def Fails (x : Moment) (f : Machine.Failure) : Prop :=
  ∃ run, x.run? = some run ∧ (x.session.turn run).1 = .failed f

end Moment

/-- The moment that a history leads to from a session in which no run is under way. -/
def follow (s : Session) (events : List Event) : Moment :=
  events.foldl Moment.after ⟨s, none⟩

/-! ### Changes -/

/-- What runs, breakpoints and the wish to stop do to a session. -/
inductive Quiet (s : Session) : Session → Prop where
  | same : Quiet s s
  | unpaused : Quiet s s.unpause
  | stepped : Quiet s s.stepped
  | flagged (wish : Bool) : Quiet s { s with interrupted := wish }
  | toggled (place : Nat) : Quiet s (s.toggleBreakpoint place)

/-- What an event does to a session. -/
inductive Changed (s : Session) : Session → Prop where
  | quiet {s' : Session} : Quiet s s' → Changed s s'
  | supplied (port : Input.Port) : Changed s { s with machine := { s.machine with input := port } }
  | handedOut : Changed s s.takeOutput.2
  | restarted : Changed s s.restart

section

variable {s : Session} {run : Run}

/-- However a step ends for the run, the session is the one with the machine that has stepped. -/
theorem takeStep_snd (s : Session) (aim : Aim) : (s.takeStep aim).2 = s.stepped := by
  unfold takeStep stepped
  obtain ⟨o, m⟩ := s.machine.step s.program
  cases o with
  | failed f | waiting => rfl
  | done =>
      simp only
      cases aim.afterStep s { s with machine := m } <;> rfl

/-- A run fails with the failure of its step. -/
theorem takeStep_failed {aim : Aim} {f : Machine.Failure} (h : (s.takeStep aim).1 = .failed f) :
    (s.machine.step s.program).1 = .failed f := by
  unfold takeStep at h
  generalize s.machine.step s.program = r at h ⊢
  obtain ⟨o, m⟩ := r
  cases o with
  | failed g => exact congrArg _ (Turn.failed.inj h)
  | waiting => cases h
  | done =>
      simp only at h
      split at h <;> cases h

/-- A turn ends the run because its aim is reached or because it is asked to stop, or it carries out a
    step. -/
theorem turn_cases (s : Session) (run : Run) :
    (run.aim.reached s.state = true ∧ s.turn run = (.finished, s)) ∨
      (run.aim.reached s.state = false ∧ s.interrupted = true ∧
        s.turn run = (.finished, s.clearInterrupt)) ∨
      s.turn run = s.takeStep run.aim := by
  unfold turn
  cases run.resumed with
  | true => exact .inr (.inr rfl)
  | false =>
      cases run.aim.reached s.state with
      | true => exact .inl ⟨rfl, rfl⟩
      | false =>
          cases s.interrupted with
          | false => exact .inr (.inr (by simp))
          | true =>
              cases run.aim.heedsInterrupt with
              | true => exact .inr (.inl ⟨rfl, rfl, rfl⟩)
              | false => exact .inr (.inr rfl)

theorem turn_failed {f : Machine.Failure} (h : (s.turn run).1 = .failed f) :
    (s.machine.step s.program).1 = .failed f := by
  rcases turn_cases s run with ⟨-, stopped⟩ | ⟨-, -, stopped⟩ | stepped
  · simp [stopped] at h
  · simp [stopped] at h
  · rw [stepped] at h
    exact takeStep_failed h

/-- A turn leaves what only other events change. -/
theorem quiet_turn (s : Session) (run : Run) : Quiet s (s.turn run).2 := by
  rcases turn_cases s run with ⟨-, stopped⟩ | ⟨-, -, stopped⟩ | stepped
  · rw [stopped]
    exact .same
  · rw [stopped]
    exact .flagged false
  · rw [stepped, takeStep_snd]
    exact .stepped

/-- A run that starts can only clear the pause. -/
theorem exists_begin (s : Session) (command : Command) :
    ∃ paused, (s.begin command).2 = s.mapState fun state => { state with paused } := by
  cases command with
  | step | run => exact ⟨s.state.paused, rfl⟩
  | runUntilPause | stepOut => exact ⟨false, rfl⟩
  | stepOver =>
      unfold begin
      cases s.atCall with
      | true => exact ⟨false, rfl⟩
      | false => exact ⟨s.state.paused, rfl⟩

/-- The start of a run leaves what only other events change. -/
theorem quiet_begin (s : Session) (command : Command) : Quiet s (s.begin command).2 := by
  cases command with
  | step | run => exact .same
  | runUntilPause | stepOut => exact .unpaused
  | stepOver =>
      unfold begin
      cases s.atCall with
      | true => exact .unpaused
      | false => exact .same

theorem Moment.whenIdle_session {P : Session → Prop} {x : Moment} {change : Session → Session}
    (same : P x.session) (changed : P (change x.session)) : P (x.whenIdle change).session := by
  unfold whenIdle
  cases x.run? with
  | none => exact changed
  | some run => exact same

/-- An event of debugging comes to a quiet change. -/
theorem quiet_after (x : Moment) {e : Event} (h : e.isDebugging = true) :
    Quiet x.session (x.after e).session := by
  cases e with
  | call command =>
      unfold Moment.after
      cases x.run? with
      | none => exact quiet_begin x.session command
      | some run => exact .same
  | turn =>
      unfold Moment.after
      cases x.run? with
      | none => exact .same
      | some run => exact quiet_turn x.session run
  | toggle place => exact Moment.whenIdle_session .same (.toggled place)
  | interrupt => exact .flagged true
  | clearInterrupt => exact .flagged false
  | giveUp | input | takeOutput | restart => cases h

/-- Every event comes to one of the changes. -/
theorem changed_after (x : Moment) (e : Event) : Changed x.session (x.after e).session := by
  cases e with
  | giveUp =>
      obtain ⟨s, run?⟩ := x
      match run? with
      | some ⟨_, true⟩ => exact .supplied _
      | some ⟨_, false⟩ | none => exact .quiet .same
  | input a => exact .supplied _
  | takeOutput => exact Moment.whenIdle_session (.quiet .same) .handedOut
  | restart => exact Moment.whenIdle_session (.quiet .same) .restarted
  | call | turn | toggle | interrupt | clearInterrupt => exact .quiet (quiet_after x rfl)

end

/-! ### Programs and control -/

section

variable {s s' : Session}

/-- No change touches more of the program than its breakpoints. -/
theorem Changed.program_eq (changed : s.Changed s') :
    ∃ breakpoints, s'.program = { s.program with breakpoints } := by
  cases changed with
  | quiet quiet =>
      cases quiet with
      | toggled place => exact s.program.exists_toggleBreakpoint place
      | same | unpaused | stepped | flagged => exact ⟨s.program.breakpoints, rfl⟩
  | supplied | handedOut | restarted => exact ⟨s.program.breakpoints, rfl⟩

/-- A change leaves control where it is or puts it back to the start, or an instruction has moved it. -/
theorem Changed.control_cases (changed : s.Changed s') :
    s'.state.control = s.state.control ∨ s'.state.control = ⟨0, [], false⟩ ∨
      ∃ i, s.program.instruction? s.state.pc = some i ∧
        s.state.control.Moves s.program i s'.state.control := by
  cases changed with
  | quiet quiet =>
      cases quiet with
      | stepped =>
          rcases stepped : s.machine.step s.program with ⟨o, m⟩
          have machine : s.stepped.machine = m := congrArg Prod.snd stepped
          unfold state
          rw [machine]
          by_cases completed : o = .done
          · subst completed
            rcases Machine.step_done stepped with ⟨-, rfl⟩ | ⟨i, executes⟩
            · exact .inl rfl
            · exact .inr (.inr ⟨i, executes.here, executes.moves⟩)
          · rcases Machine.step_not_done stepped completed with ⟨port, rfl⟩
            exact .inl rfl
      | same | unpaused | flagged | toggled => exact .inl rfl
  | supplied | handedOut => exact .inl rfl
  | restarted => exact .inr (.inl rfl)

end

/-! ### Invariants -/

/-- What holds of a session and is kept by the events of a history holds after the history. -/
theorem follow_invariant {P : Session → Prop} {s : Session} {events : List Event} (start : P s)
    (keeps : ∀ (x : Moment) (e : Event), e ∈ events → P x.session → P (x.after e).session) :
    P (s.follow events).session := by
  unfold follow
  generalize moment : (⟨s, none⟩ : Moment) = x
  replace start : P x.session := moment ▸ start
  clear moment
  induction events generalizing x with
  | nil => exact start
  | cons e rest ih =>
      apply ih
      · intro y e' member
        exact keeps y e' (List.mem_cons_of_mem e member)
      · exact keeps x e List.mem_cons_self start

end Session

end Whitespace

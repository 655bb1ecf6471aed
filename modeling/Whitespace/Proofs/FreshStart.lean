/-
Module: Whitespace.Proofs.FreshStart
Purpose: A restart leaves nothing behind. A read is linked to the feed only while a run waits in it, so that
  a session in which no run is under way has nothing left to call off, and its restart gives the session
  that a new start over the same program gives. Sessions whose programs differ only in how their breakpoints
  are kept answer everything alike.
Main exports: State.reading?, step_polls, Moment.Unlinked, unlinked_follow, restart_of_free, Program.Alike,
  Answer, Moment.answer, Moment.answers, answers_withProgram, answers_restart
-/
import Whitespace.Proofs.ClosedPrograms
import Whitespace.Proofs.LateRuns
import Whitespace.Proofs.ParkedReads
import Whitespace.Proofs.Transparency

namespace Whitespace

open Input (ReadKind Port)

/-! ### The read that comes next -/

def PortCommand.readKind? : PortCommand → Option ReadKind
  | .readCharacter => some .character
  | .readNumber => some .number
  | .writeCharacter | .writeNumber => none

namespace Machine

/-- The kind of the read that an instruction starts, if it is one and finds an address on the stack. -/
def State.starts? (s : State) : Instruction → Option ReadKind
  | .io command =>
    match s.stack.pop? with
    | none => none
    | some (a, _) =>
      match checkedAddress a with
      | .ok _ => command.readKind?
      | .error _ => none
  | .stack _ | .arithmetic _ | .heap _ | .flow _ => none

/-- The kind of the read that the next instruction starts. -/
def State.reading? (program : Program) (s : State) : Option ReadKind :=
  if s.halted then none else (program.instruction? s.pc).bind s.starts?

def Effect.port : Effect → Port
  | .completed m | .faulted _ m | .waiting m => m.input

def Effect.waits : Effect → Bool
  | .waiting _ => true
  | .completed _ | .faulted _ _ => false

/-- Polling a read of a kind leads from one port to another and has to wait or not. Where there is no read,
    nothing waits and the port stays as it is. -/
def Polls (before : Port) : Option ReadKind → Prop → Port → Prop
  | none, waits, after => ¬ waits ∧ after = before
  | some kind, waits, after =>
    (waits ↔ (before.read kind).1 = .waiting) ∧ after = (before.read kind).2

theorem allOrNothing_polls (m : Machine) (r : Except Fault State) :
    Polls m.input none ((m.allOrNothing r).waits = true) (m.allOrNothing r).port := by
  cases r <;> exact ⟨nofun, rfl⟩

/-- A command that reads polls the port once. -/
theorem receive_polls (m : Machine) (address : Nat) (rest : Stack) (kind : ReadKind) :
    Polls m.input (some kind) ((m.receive address rest (m.input.read kind)).waits = true)
      (m.receive address rest (m.input.read kind)).port := by
  unfold Polls
  simp only
  generalize m.input.read kind = r
  obtain ⟨o, port⟩ := r
  cases o with
  | waiting => exact ⟨iff_of_true rfl rfl, rfl⟩
  | value | failed => exact ⟨iff_of_false nofun nofun, rfl⟩

/-- Among the commands of the ports, those that read poll the port, and the others leave it. -/
theorem transfer_polls (m : Machine) (command : PortCommand) :
    Polls m.input (m.state.starts? (.io command)) ((m.transfer command).waits = true)
      (m.transfer command).port := by
  unfold transfer State.starts?
  cases m.state.stack.pop? with
  | none => exact ⟨Bool.false_ne_true, rfl⟩
  | some top =>
      obtain ⟨a, rest⟩ := top
      cases command with
      | writeCharacter =>
          simp only [PortCommand.readKind?]
          cases checkedAddress a <;> cases character? a <;> exact ⟨Bool.false_ne_true, rfl⟩
      | writeNumber =>
          simp only [PortCommand.readKind?]
          cases checkedAddress a <;> exact ⟨Bool.false_ne_true, rfl⟩
      | readCharacter =>
          simp only
          cases checkedAddress a with
          | error f => exact ⟨Bool.false_ne_true, rfl⟩
          | ok address => exact receive_polls m address rest .character
      | readNumber =>
          simp only
          cases checkedAddress a with
          | error f => exact ⟨Bool.false_ne_true, rfl⟩
          | ok address => exact receive_polls m address rest .number

/-- An instruction polls the port at most once, with the kind of read that it starts. -/
theorem perform_polls (program : Program) (m : Machine) (i : Instruction) :
    Polls m.input (m.state.starts? i) ((m.perform program i).waits = true)
      (m.perform program i).port := by
  cases i with
  | io command =>
      rw [perform_io]
      exact transfer_polls m command
  | stack | arithmetic | heap | flow =>
      simp only [perform_stack, perform_arithmetic, perform_heap, perform_flow]
      exact allOrNothing_polls m _

/-- A step polls the read that comes next and waits when the read does; where none comes next it leaves the
    port alone. -/
theorem step_polls (program : Program) (m : Machine) :
    Polls m.input (m.state.reading? program) ((m.step program).1 = .waiting)
      (m.step program).2.input := by
  unfold step State.reading?
  cases m.state.halted with
  | true => exact ⟨nofun, rfl⟩
  | false =>
      simp only [Bool.false_eq_true, if_false]
      cases program.instruction? m.state.pc with
      | none => exact ⟨nofun, rfl⟩
      | some i =>
          have polls := perform_polls program m i
          simp only [Option.bind_some]
          generalize m.perform program i = effect at polls ⊢
          cases effect <;> simpa [Effect.waits, Effect.port] using polls

end Machine

namespace Session

/-! ### Links -/

/-- A read is linked to the feed only while a run waits in it. -/
def Moment.Unlinked (x : Moment) : Prop :=
  x.session.machine.input.Free ∨
    ∃ aim kind, x.run? = some ⟨aim, true⟩ ∧
      x.session.state.reading? x.session.program = some kind ∧ x.session.machine.input.Serves kind

section

variable {s : Session} {x : Moment}

theorem Moment.Unlinked.fed (unlinked : x.Unlinked) : x.session.machine.input.Fed := by
  rcases unlinked with free | ⟨aim, kind, -, -, serves⟩
  · exact (free.serves .character).fed
  · exact serves.fed

theorem Moment.Unlinked.free (unlinked : x.Unlinked)
    (idle : ∀ aim, x.run? ≠ some ⟨aim, true⟩) : x.session.machine.input.Free := by
  rcases unlinked with free | ⟨aim, kind, waits, -, -⟩
  · exact free
  · exact absurd waits (idle aim)

/-- A step that waits is resumed, and it leaves the state as it was. -/
theorem takeStep_of_waits (aim : Aim) (waits : (s.machine.step s.program).1 = .waiting) :
    (s.takeStep aim).1 = .waiting ⟨aim, true⟩ ∧ s.stepped.state = s.state := by
  unfold takeStep stepped state
  rcases stepped : s.machine.step s.program with ⟨o, m⟩
  rw [stepped] at waits
  obtain rfl : o = .waiting := waits
  obtain ⟨port, rfl⟩ := Machine.step_not_done stepped nofun
  exact ⟨rfl, rfl⟩

/-- A step links a read only if it waits in it. -/
theorem unlinked_takeStep (aim : Aim)
    (link : s.machine.input.Free ∨
      ∃ kind, s.state.reading? s.program = some kind ∧ s.machine.input.Serves kind) :
    Moment.Unlinked ⟨(s.takeStep aim).2, (s.takeStep aim).1.run?⟩ := by
  have polls : Machine.Polls s.machine.input (s.state.reading? s.program)
      ((s.machine.step s.program).1 = .waiting) s.stepped.machine.input :=
    Machine.step_polls s.program s.machine
  rw [takeStep_snd]
  cases reading : s.state.reading? s.program with
  | none =>
      rw [reading] at polls
      have free : s.machine.input.Free := by
        rcases link with free | ⟨kind, other, -⟩
        · exact free
        · rw [reading] at other
          cases other
      exact .inl (free.of_source (congrArg Port.source polls.2))
  | some kind =>
      rw [reading] at polls
      have serves : s.machine.input.Serves kind := by
        rcases link with free | ⟨kind', same, serves⟩
        · exact free.serves kind
        · rw [reading] at same
          cases same
          exact serves
      obtain ⟨waits, port⟩ := polls
      have polled := serves.polled
      rcases read : s.machine.input.read kind with ⟨o, q⟩
      rw [read] at waits port polled
      simp only at waits port
      cases polled with
      | ended _ free =>
          rw [← port] at free
          exact .inl free
      | asleep _ fed _ lacks =>
          -- A step that waits leaves the state alone, so the read that waits is still the one to come.
          obtain ⟨run, state⟩ := takeStep_of_waits aim (waits.2 rfl)
          have program : s.stepped.program = s.program := rfl
          rw [← port] at fed lacks
          obtain ⟨f, source⟩ := fed
          refine .inr ⟨aim, kind, congrArg Turn.run? run, ?_, f, source, fun _ => lacks⟩
          rw [state, program]
          exact reading

/-- A turn of a run links no read to the feed but that of a run that waits. -/
theorem unlinked_turn {run : Run} (unlinked : (⟨s, some run⟩ : Moment).Unlinked) :
    Moment.Unlinked ⟨(s.turn run).2, (s.turn run).1.run?⟩ := by
  obtain ⟨aim, resumed⟩ := run
  cases resumed with
  | true =>
      apply unlinked_takeStep aim
      rcases unlinked with free | ⟨aim', kind, -, reading⟩
      · exact .inl free
      · exact .inr ⟨kind, reading⟩
  | false =>
      have free := unlinked.free nofun
      rcases turn_cases s ⟨aim, false⟩ with ⟨-, stopped⟩ | ⟨-, -, stopped⟩ | stepped
      · rw [stopped]
        exact .inl free
      · rw [stopped]
        exact .inl free
      · rw [stepped]
        exact unlinked_takeStep aim (.inl free)

/-- A restart where no read is linked to the feed is a new start. -/
theorem restart_of_free (free : s.machine.input.Free) : s.restart = ofProgram s.program := by
  obtain ⟨f, source, unattended⟩ := free
  have source' : s.cancel.machine.input.source = .fresh := by
    unfold cancel mapFeed
    simp only [source, Input.Source.mapFeed]
    -- Only the trace of a linked read would outlast the calling off.
    obtain ⟨pending, closed, waiter⟩ := f
    cases waiter with
    | absent | abandoned => rfl
    | parked | answered | revoked => cases unattended
  unfold restart ofProgram start
  simp only [Port.clear, source']
  rfl

/-- Whatever happens, a read is linked to the feed only while a run waits. -/
theorem unlinked_after (unlinked : x.Unlinked) (e : Event) : (x.after e).Unlinked := by
  obtain ⟨s, run?⟩ := x
  cases e with
  | turn =>
      cases run? with
      | none => exact unlinked
      | some run => exact unlinked_turn unlinked
  | call command =>
      cases run? with
      | some run => exact unlinked
      | none =>
          obtain ⟨paused, begun⟩ := s.exists_begin command
          refine .inl ?_
          change (s.begin command).2.machine.input.Free
          rw [begun]
          exact unlinked.free nofun
  | giveUp =>
      match run? with
      | some ⟨aim, true⟩ => exact .inl (Input.Port.free_abandon unlinked.fed)
      | some ⟨_, false⟩ | none => exact unlinked
  | input a =>
      rcases unlinked with free | ⟨aim, kind, waits, reading, serves⟩
      · exact .inl (free.act a)
      · exact .inr ⟨aim, kind, waits, reading, serves.act a⟩
  | interrupt | clearInterrupt => exact unlinked
  | toggle place | takeOutput =>
      cases run? with
      | some run => exact unlinked
      | none => exact .inl (unlinked.free nofun)
  | restart =>
      cases run? with
      | some run => exact unlinked
      | none =>
          have free : s.machine.input.Free := unlinked.free nofun
          refine .inl ?_
          change s.restart.machine.input.Free
          rw [restart_of_free free]
          exact ⟨{}, rfl, rfl⟩

/-- In any history of a session, a read is linked to the feed only while a run waits. -/
theorem unlinked_follow (program : Program) (events : List Event) :
    ((ofProgram program).follow events).Unlinked := by
  unfold follow
  have start : (⟨ofProgram program, none⟩ : Moment).Unlinked := .inl ⟨{}, rfl, rfl⟩
  generalize (⟨ofProgram program, none⟩ : Moment) = x at start ⊢
  induction events generalizing x with
  | nil => exact start
  | cons e rest ih => exact ih _ (unlinked_after start e)

end

end Session

/-! ### Programs with the same breakpoints -/

/-- Programs with the same instructions and breakpoints, however the breakpoints are kept. -/
structure Program.Alike (p q : Program) : Prop where
  instructions : q.instructions = p.instructions
  targets : q.targets = p.targets
  breakpoints : ∀ place, q.isBreakpoint place = p.isBreakpoint place

namespace Program

variable {p q : Program}

/-- Toggling changes the breakpoint at its place and no other. -/
theorem isBreakpoint_toggleBreakpoint (p : Program) (place other : Nat) :
    (p.toggleBreakpoint place).isBreakpoint other =
      if other = place then !p.isBreakpoint place else p.isBreakpoint other := by
  unfold toggleBreakpoint
  by_cases same : other = place
  · subst same
    rw [if_pos rfl]
    cases set : p.isBreakpoint other with
    | true =>
        rw [if_pos rfl]
        simp [isBreakpoint]
    | false =>
        rw [if_neg nofun]
        simp [isBreakpoint]
  · have different : place ≠ other := Ne.symm same
    rw [if_neg same]
    split
    · simp [isBreakpoint, Std.TreeSet.contains_erase, different]
    · simp [isBreakpoint, Std.TreeSet.contains_insert, different]

/-- Programs that are alike stay so when the same breakpoint is toggled. -/
theorem Alike.toggleBreakpoint (alike : p.Alike q) (place : Nat) :
    (p.toggleBreakpoint place).Alike (q.toggleBreakpoint place) := by
  obtain ⟨breakpoints, toggled⟩ := p.exists_toggleBreakpoint place
  obtain ⟨breakpoints', toggled'⟩ := q.exists_toggleBreakpoint place
  refine ⟨?_, ?_, ?_⟩
  · rw [toggled, toggled']
    exact alike.instructions
  · rw [toggled, toggled']
    exact alike.targets
  · intro other
    rw [isBreakpoint_toggleBreakpoint, isBreakpoint_toggleBreakpoint, alike.breakpoints,
      alike.breakpoints]

theorem Alike.instruction?_eq (alike : p.Alike q) (place : Nat) :
    q.instruction? place = p.instruction? place := by
  unfold instruction?
  rw [alike.instructions]

theorem Alike.listing_eq (alike : p.Alike q) : q.listing = p.listing := by
  unfold listing listingLine
  rw [alike.instructions]
  simp only [alike.breakpoints]

end Program

/-- A step takes notice of where the breakpoints are, and not of how they are kept. -/
theorem Machine.step_alike {p q : Program} (alike : p.Alike q) (m : Machine) : m.step q = m.step p := by
  obtain ⟨instructions, targets, breakpoints⟩ := q
  obtain rfl : instructions = p.instructions := alike.instructions
  obtain rfl : targets = p.targets := alike.targets
  have here (place : Nat) := alike.instruction?_eq place
  have complete (s : State) : s.complete { p with breakpoints } = s.complete p := by
    unfold State.complete
    rw [alike.breakpoints]
  unfold step
  rw [here]
  simp only [perform_withBreakpoints, complete]

namespace Session

/-! ### Answers -/

/-- What a session shows after an event, and what the event itself gives. -/
structure Answer where
  state : Machine.State
  output : String
  waiting : Bool
  interrupted : Bool
  listing : String
  /-- How a turn of the run under way has ended. -/
  turn? : Option Turn
  /-- The output that was handed out. -/
  taken? : Option String
  /-- Is there a breakpoint now where it was set or removed? -/
  set? : Option Bool

namespace Moment

/-- The answer to an event. -/
def answer (x : Moment) (e : Event) : Answer :=
  let s := (x.after e).session
  { state := s.state
    output := s.output
    waiting := s.isWaiting
    interrupted := s.interrupted
    listing := s.program.listing
    turn? :=
      match e, x.run? with
      | .turn, some run => some (x.session.turn run).1
      | _, _ => none
    taken? :=
      match e, x.run? with
      | .takeOutput, none => some x.session.takeOutput.1
      | _, _ => none
    set? :=
      match e, x.run? with
      | .toggle place, none => some (s.program.isBreakpoint place)
      | _, _ => none }

def answers : Moment → List Event → List Answer
  | _, [] => []
  | x, e :: rest => x.answer e :: (x.after e).answers rest

def withProgram (x : Moment) (program : Program) : Moment :=
  { x with session := { x.session with program } }

end Moment

section

variable {s : Session} {x : Moment} {q : Program}

theorem atCall_withProgram (alike : s.program.Alike q) :
    ({ s with program := q } : Session).atCall = s.atCall := by
  simp only [atCall]
  rw [alike.instruction?_eq]
  rfl

/-- Programs that are alike start the same run. -/
theorem begin_withProgram (alike : s.program.Alike q) (command : Command) :
    ({ s with program := q } : Session).begin command =
      ((s.begin command).1, { (s.begin command).2 with program := q }) := by
  cases command with
  | stepOver =>
      unfold begin
      rw [atCall_withProgram alike]
      cases s.atCall <;> rfl
  | step | run | runUntilPause | stepOut => rfl

/-- A step does the same with programs that are alike. -/
theorem takeStep_withProgram (alike : s.program.Alike q) (aim : Aim) :
    ({ s with program := q } : Session).takeStep aim =
      ((s.takeStep aim).1, { (s.takeStep aim).2 with program := q }) := by
  have remains (machine : Machine) :
      aim.afterStep { s with program := q } { s with program := q, machine } =
        aim.afterStep s { s with machine } := by
    cases aim with
    | leave depth =>
        have depthAfter : ({ s with program := q } : Session).depthAfter depth = s.depthAfter depth := by
          unfold depthAfter
          simp only [alike.instruction?_eq]
          rfl
        exact congrArg (fun depth => some (Aim.leave depth)) depthAfter
    | single | halt | pause | callee => rfl
  unfold takeStep
  simp only [Machine.step_alike alike, remains]
  rcases s.machine.step s.program with ⟨o, m⟩
  cases o with
  | failed | waiting => rfl
  | done =>
      simp only
      cases aim.afterStep s { s with machine := m } <;> rfl

/-- A turn does the same with programs that are alike. -/
theorem turn_withProgram (alike : s.program.Alike q) (run : Run) :
    ({ s with program := q } : Session).turn run =
      ((s.turn run).1, { (s.turn run).2 with program := q }) := by
  have state : ({ s with program := q } : Session).state = s.state := rfl
  unfold turn
  simp only [state, takeStep_withProgram alike]
  split
  · rfl
  · split
    · rfl
    · split <;> rfl

/-- No turn changes the program. -/
theorem turn_program (s : Session) (run : Run) : (s.turn run).2.program = s.program := by
  rcases turn_cases s run with ⟨-, stopped⟩ | ⟨-, -, stopped⟩ | stepped
  · rw [stopped]
  · rw [stopped]
    rfl
  · rw [stepped, takeStep_snd]
    rfl

/-- What an event leads to does not depend on how the breakpoints are kept, and they stay alike. -/
theorem after_withProgram (alike : x.session.program.Alike q) (e : Event) :
    ∃ q', (x.after e).session.program.Alike q' ∧
      (x.withProgram q).after e = (x.after e).withProgram q' := by
  obtain ⟨s, run?⟩ := x
  cases e with
  | toggle place =>
      cases run? with
      | some run => exact ⟨q, alike, rfl⟩
      | none => exact ⟨q.toggleBreakpoint place, alike.toggleBreakpoint place, rfl⟩
  | call command =>
      cases run? with
      | some run => exact ⟨q, alike, rfl⟩
      | none =>
          obtain ⟨paused, begun⟩ := s.exists_begin command
          refine ⟨q, ?_, ?_⟩
          · change (s.begin command).2.program.Alike q
            rw [begun]
            exact alike
          · simp only [Moment.after, Moment.withProgram, begin_withProgram alike]
  | turn =>
      cases run? with
      | none => exact ⟨q, alike, rfl⟩
      | some run =>
          refine ⟨q, ?_, ?_⟩
          · change (s.turn run).2.program.Alike q
            rw [turn_program]
            exact alike
          · simp only [Moment.after, Moment.withProgram, turn_withProgram alike]
  | giveUp =>
      match run? with
      | some ⟨_, true⟩ | some ⟨_, false⟩ | none => exact ⟨q, alike, rfl⟩
  | takeOutput | restart => cases run? <;> exact ⟨q, alike, rfl⟩
  | interrupt | clearInterrupt | input => exact ⟨q, alike, rfl⟩

/-- An event is answered in the same way with programs that are alike. -/
theorem answer_withProgram {q' : Program} (alike : x.session.program.Alike q) {e : Event}
    (alike' : (x.after e).session.program.Alike q')
    (next : (x.withProgram q).after e = (x.after e).withProgram q') :
    (x.withProgram q).answer e = x.answer e := by
  obtain ⟨s, run?⟩ := x
  unfold Moment.answer
  rw [next]
  have listing : q'.listing = _ := alike'.listing_eq
  cases e with
  | turn =>
      cases run? with
      | none =>
          simp only [Moment.withProgram, listing]
          rfl
      | some run =>
          simp only [Moment.withProgram, turn_withProgram alike, listing]
          rfl
  | toggle place =>
      cases run? with
      | none =>
          simp only [Moment.withProgram, listing, alike'.breakpoints]
          rfl
      | some run =>
          simp only [Moment.withProgram, listing]
          rfl
  | _ =>
      simp only [Moment.withProgram, listing]
      rfl

/-- Sessions that differ only in how their breakpoints are kept answer everything alike. -/
theorem answers_withProgram (alike : x.session.program.Alike q) (events : List Event) :
    (x.withProgram q).answers events = x.answers events := by
  induction events generalizing x q with
  | nil => rfl
  | cons e rest ih =>
      obtain ⟨q', alike', next⟩ := after_withProgram alike e
      rw [Moment.answers, Moment.answers, answer_withProgram alike alike' next, next, ih alike']

end

/-! ### Restarts -/

/-- A restart leaves nothing behind. After any history, the session that is restarted while no run is under
    way answers whatever happens later as a new session does that starts over the same instructions with
    the same breakpoints. -/
theorem answers_restart (instructions : List Instruction) (breakpoints breakpoints' : Std.TreeSet Nat)
    (events later : List Event) :
    let x := (ofProgram { Program.ofInstructions instructions with breakpoints }).follow events
    x.run? = none →
      (∀ place, breakpoints'.contains place = x.session.program.isBreakpoint place) →
        (x.after .restart).answers later =
          Moment.answers
            ⟨ofProgram { Program.ofInstructions instructions with breakpoints := breakpoints' }, none⟩
            later := by
  intro x idle same
  have unlinked : x.Unlinked := unlinked_follow _ events
  have free := unlinked.free (by rw [idle]; nofun)
  obtain ⟨kept, program⟩ :=
    program_follow (ofProgram { Program.ofInstructions instructions with breakpoints }) events
  have alike :
      x.session.program.Alike { Program.ofInstructions instructions with breakpoints := breakpoints' } := by
    refine ⟨?_, ?_, same⟩
    · rw [program]
      rfl
    · rw [program]
      rfl
  have restarted : x.after .restart = ⟨ofProgram x.session.program, none⟩ := by
    rw [← restart_of_free free]
    unfold Moment.after Moment.whenIdle
    simp only [idle]
  have fresh : (⟨ofProgram x.session.program, none⟩ : Moment).session.program.Alike _ := alike
  rw [restarted]
  exact (answers_withProgram fresh later).symm

/-- A program that reads a number into the cell 1 and writes it. -/
def echoNumber : List Instruction :=
  [.stack (.push 1), .io .readNumber, .stack (.push 1), .heap .retrieve, .io .writeNumber, .flow .exit]

/-- The read of the number waits after a digit has come, and it is given up. -/
def echoGivenUp : List Event :=
  [.toggle 4, .toggle 2, .call .run, .turn, .turn, .input (.feed "4"), .turn, .giveUp, .input .close,
    .interrupt, .input (.feed "2")]

/-- The number that is read after the restart does not start with the old digit. -/
theorem answers_restart_echo :
    ((((ofProgram (.ofInstructions echoNumber)).follow echoGivenUp).after .restart).answers
        [.call .run, .input (.feed "7\n"), .turn, .turn, .turn, .turn, .turn]).map Answer.output =
      ["", "", "", "", "", "", "7"] := by
  let x := (ofProgram (.ofInstructions echoNumber)).follow echoGivenUp
  have idle : x.run? = none := by decide +kernel
  have listed : x.session.program.breakpoints.toList = [2, 4] := by decide +kernel
  have same (place : Nat) :
      (Std.TreeSet.ofList [2, 4]).contains place = x.session.program.isBreakpoint place := by
    have kept := Std.TreeSet.contains_toList (t := x.session.program.breakpoints) (k := place)
    rw [listed] at kept
    exact Std.TreeSet.contains_ofList.trans kept
  have restarted := answers_restart echoNumber ∅ (Std.TreeSet.ofList [2, 4]) echoGivenUp
    [.call .run, .input (.feed "7\n"), .turn, .turn, .turn, .turn, .turn] idle same
  refine (congrArg (List.map Answer.output) restarted).trans ?_
  decide +kernel

end Session

end Whitespace

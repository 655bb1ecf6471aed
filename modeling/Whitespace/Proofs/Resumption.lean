/-
Module: Whitespace.Proofs.Resumption
Purpose: Stepping over and out of code that reads input. A command that waits and is given up is started
  anew when there is more input, but how deep it was goes with the run. As long as it waits in the routine
  in which it was started, it comes to the ending of one command that finds all of its input. If it waits
  in a deeper routine, what is started anew has less to do: stepping over a call becomes a single step, and
  stepping out leaves the deeper routine alone.
Main exports: TakesInput, endsWith_resumed_iff, attemptAll, endsWith_attemptAll_iff, deliver_launch_stepOver,
  stepOver_not_resumed
-/
import Whitespace.Proofs.Renewal

namespace Whitespace.Session

/-- The session reads from a feed that is open and that nobody has called off. -/
def TakesInput (s : Session) : Prop :=
  ∃ f, s.machine.input.source = .feed f ∧ f.Steady false

section

variable {s s' : Session} {run run' : Run} {c : Command} {services : List Service} {pieces : List String}
  {text : String} {e : Ending}

theorem delivers_feed (pieces : List String) :
    Input.Delivers false false (pieces.flatMap String.toList) (pieces.map Input.Action.feed) := by
  induction pieces with
  | nil => exact .done rfl
  | cons text rest ih => exact .feed ih

/-- A session is behind the one into which everything has been fed beforehand. -/
theorem behind_feed (takes : s.TakesInput) (cut : String.join pieces = text) :
    (s.feed text).Behind false (pieces.map .feed) s := by
  obtain ⟨f, source, steady⟩ := takes
  have kept : Input.Action.feed text ≠ .cancel := nofun
  have orderly : s.machine.input.source.Orderly := by
    rw [source]
    exact steady.orderly
  have ahead : (s.machine.input.act (.feed text)).source.Steady false := by
    rw [Input.Port.source_act source]
    exact steady.feed text
  have behind : s.machine.input.source.Steady false := by
    rw [source]
    exact steady
  have remaining := Input.Port.remaining_act orderly source kept
  refine ⟨rfl, rfl, false, pieces.flatMap String.toList, ⟨rfl, rfl, ?_⟩, delivers_feed pieces⟩
  refine ⟨ahead, behind, remaining.trans ?_, nofun⟩
  change s.machine.input.remaining ++ text.toList = _
  rw [← cut, String.toList_join]

/-- Stepping over or out of code that reads comes to the ending that it comes to when everything is fed
    beforehand, if it is fed piece by piece while it waits, be it given up and started anew or not, provided
    that it waits only where as many routines are under way as at the start. -/
theorem endsWith_resumed_iff (takes : s.TakesInput) (cut : String.join pieces = text)
    (fed : services.flatMap Service.kept = pieces.map .feed) (counts : c.countsCalls = true)
    (level : AtWaits (fun _ s' => Level s.state.calls.length s') c services (s.begin c).1 (s.begin c).2) :
    EndsWith (fun turns => carry turns [c] [] (s.feed text)) e ↔
      EndsWith (fun turns => carry turns [c] services s) e := by
  have behind := behind_feed takes cut
  rw [← fed] at behind
  apply endsWith_carry_cons behind (renews_of_level counts level)
  intro t t' left behind'
  exact endsWith_carry_nil behind'

/-! ### Commands that are asked for again -/

/-- The run is given up as it waits, and the text is fed before its command is started anew. -/
def Service.given (text : String) : Service := ⟨[], true, [.feed text]⟩

/-- Asks for a command, and each time it waits feeds the next piece of the input and asks for it again. -/
def attemptAll (turns : Nat) (c : Command) : List String → Session → Progress × Session
  | [], s => attempt turns s c
  | text :: rest, s =>
    match attempt turns s c with
    | (.waiting _, s') => attemptAll turns c rest (s'.feed text)
    | result => result

/-- To ask for a command again and again is to deliver its input to runs each of which is given up. -/
theorem ending?_attemptAll {turns : Nat} :
    ending? (attemptAll turns c pieces s) =
      ending? (deliver turns c (pieces.map .given) (launch turns s c)).1 := by
  induction pieces generalizing s with
  | nil =>
      unfold attemptAll attempt
      rcases launch turns s c with ⟨p, s'⟩
      cases p with
      | waiting | finished | failed | unfinished => rfl
  | cons text rest ih =>
      unfold attemptAll attempt
      rcases launch turns s c with ⟨p, s'⟩
      cases p with
      | finished | failed | unfinished => rfl
      | waiting run =>
          have anew : serve c (.given text) run s' = (s'.abandon.feed text).begin c := rfl
          rw [List.map_cons, deliver, anew]
          exact ih

theorem endsWith_attemptAll_iff :
    EndsWith (fun turns => attemptAll turns c pieces s) e ↔
      EndsWith (fun turns => carry turns [c] (pieces.map .given) s) e := by
  simp only [EndsWith, ending?_attemptAll, carry_singleton]

/-! ### What is started anew -/

/-- Only a read waits, and a read is no call. -/
theorem isCall_of_waiting {program : Program} {m m' : Machine} {i : Instruction}
    (waits : m.perform program i = .waiting m') : i.isCall = false := by
  cases i with
  | io command => rfl
  | stack | arithmetic | heap | flow =>
      simp only [Machine.perform_stack, Machine.perform_arithmetic, Machine.perform_heap,
        Machine.perform_flow] at waits
      exact absurd waits Machine.allOrNothing_ne_waiting

/-- A step that waits stands before an instruction that is no call. -/
theorem atCall_of_takeStep {aim : Aim} (waits : (s.takeStep aim).1 = .waiting run') : s.atCall = false := by
  have step : (s.machine.step s.program).1 = .waiting := by
    unfold takeStep at waits
    generalize s.machine.step s.program = r at waits ⊢
    obtain ⟨o, m⟩ := r
    cases o with
    | waiting => rfl
    | failed f => cases waits
    | done =>
        simp only at waits
        split at waits <;> cases waits
  have cases := Machine.step_cases s.program s.machine
  generalize s.machine.step s.program = r at cases step
  cases cases with
  | waiting _ here performed =>
      have here' : s.program.instruction? s.state.pc = some _ := here
      unfold atCall
      rw [here']
      exact isCall_of_waiting performed
  | halted | completed | past | faulted => cases step

/-- A run that waits does so before an instruction that is no call, and it goes on from there. -/
theorem advance_waiting {turns : Nat} (sound : run.Sound s)
    (waits : advance turns run s = (.waiting run', s')) : run'.Goes s' ∧ s'.atCall = false := by
  induction turns generalizing run s with
  | zero => cases waits
  | succ turns ih =>
      unfold advance at waits
      rcases turned : s.turn run with ⟨t, s₁⟩
      rw [turned] at waits
      cases t with
      | finished | failed => cases waits
      | onward run₁ =>
          apply ih _ waits
          intro resumed
          rw [(turn_onward turned).1] at resumed
          cases resumed
      | waiting run₁ =>
          cases waits
          obtain ⟨-, goes', port, rfl⟩ := turn_waiting sound turned
          have unfinished : (s.turn run).1 ≠ .finished := by simp [turned]
          have goes : run.Goes s := goes_of_turn sound unfinished
          rw [turn_of_goes goes] at turned
          have other : s.atCall = false := atCall_of_takeStep (congrArg Prod.fst turned)
          exact ⟨goes', other⟩

/-- Stepping over and a single step are started anew alike where no call is ahead. -/
theorem serve_stepOver {v : Service} (other : s.atCall = false) :
    serve .stepOver v run s = serve .step v run s := by
  unfold serve
  cases v.givesUp with
  | false => rfl
  | true =>
      have other' : ((s.supply v.actions).abandon.supply v.afterwards).atCall = false := by
        rw [supply_eq _ v.afterwards, abandon_eq, supply_eq]
        exact other
      rw [if_pos rfl, if_pos rfl, begin_stepOver_of_not_atCall other']
      rfl

/-- Stepping over is served like a single step, for no run waits before a call. -/
theorem deliver_stepOver {turns : Nat} (sound : run.Sound s) :
    deliver turns .stepOver services (advance turns run s) =
      deliver turns .step services (advance turns run s) := by
  induction services generalizing run s with
  | nil => rfl
  | cons v rest ih =>
      rcases advanced : advance turns run s with ⟨p, s'⟩
      cases p with
      | finished | failed | unfinished => rfl
      | waiting run' =>
          obtain ⟨goes, other⟩ := advance_waiting sound advanced
          unfold deliver
          rw [serve_stepOver other]
          exact ih (sound_serve goes)

/-- Once stepping over has waited and is given up, what is started anew is a single step. -/
theorem deliver_launch_stepOver {turns : Nat} :
    deliver turns .stepOver services (launch turns s .stepOver) =
      deliver turns .step services (launch turns s .stepOver) :=
  deliver_stepOver (sound_begin s .stepOver)

end

/-- A session over a program that calls a routine, which reads two characters. -/
def reading : Session :=
  ofProgram (.ofInstructions
    [.flow (.call ⟨0⟩), .flow .exit, .flow (.mark ⟨0⟩), .stack (.push 0), .io .readCharacter,
      .stack (.push 1), .io .readCharacter, .flow .ret])

def readingWithin : Session :=
  { reading with machine := { reading.machine with state := { pc := 2, calls := [1] } } }

/-- Feeds the text of two reads, each when it waits and has been given up. -/
def readingServices : List Service := ["a", "b"].map Service.given

/-- Stepping out of the routine is resumed twice, and it leaves the routine. -/
theorem endsWith_resumed_iff_within :
    ∃ e : Ending, e.failure? = none ∧ e.state.pc = 1 ∧
      EndsWith (fun turns => carry turns [.stepOut] [] (readingWithin.feed "ab")) e ∧
      EndsWith (fun turns => carry turns [.stepOut] readingServices readingWithin) e := by
  have outcome : (ending? (carry 9 [.stepOut] [] (readingWithin.feed "ab"))).map
      (fun e => (e.failure?, e.state.pc)) = some (none, 1) := by
    decide +kernel
  obtain ⟨e, ending, same⟩ := Option.map_eq_some_iff.1 outcome
  obtain ⟨failure, place⟩ := Prod.mk.inj same
  have whole : EndsWith (fun turns => carry turns [.stepOut] [] (readingWithin.feed "ab")) e := ⟨9, ending⟩
  have checked : checkWaits (fun _ s => s.state.calls.length == 1) .stepOut 9 readingServices
      (readingWithin.begin .stepOut).1 (readingWithin.begin .stepOut).2 = true := by
    decide +kernel
  have level : AtWaits (fun _ s' => Level readingWithin.state.calls.length s') .stepOut readingServices
      (readingWithin.begin .stepOut).1 (readingWithin.begin .stepOut).2 :=
    fun run' s' meets => eq_of_beq (atWaits_of_check checked run' s' meets)
  have takes : readingWithin.TakesInput := ⟨{}, rfl, Input.Feed.steady_fresh⟩
  have cut : String.join ["a", "b"] = "ab" := by decide
  have fed : readingServices.flatMap Service.kept = ["a", "b"].map .feed := rfl
  exact ⟨e, failure, place, whole, (endsWith_resumed_iff takes cut fed rfl level).1 whole⟩

/-- Stepping over the call is resumed as a single step, and it ends within the routine. -/
theorem stepOver_not_resumed :
    ∃ e : Ending, e.failure? = none ∧ e.state.pc = 5 ∧
      EndsWith (fun turns => carry turns [.stepOver] readingServices reading) e ∧
      ¬ EndsWith (fun turns => carry turns [.stepOver] [] (reading.feed "ab")) e := by
  have outcome : (ending? (carry 9 [.stepOver] readingServices reading)).map
      (fun e => (e.failure?, e.state.pc)) = some (none, 5) := by
    decide +kernel
  have outcome' : (ending? (carry 9 [.stepOver] [] (reading.feed "ab"))).map (·.state.pc) = some 1 := by
    decide +kernel
  obtain ⟨e, ending, same⟩ := Option.map_eq_some_iff.1 outcome
  obtain ⟨failure, place⟩ := Prod.mk.inj same
  obtain ⟨e', ending', place'⟩ := Option.map_eq_some_iff.1 outcome'
  refine ⟨e, failure, place, ⟨9, ending⟩, ?_⟩
  intro whole
  have unique : e' = e := EndsWith.unique ⟨9, ending'⟩ whole
  rw [unique, place] at place'
  cases place'

end Whitespace.Session

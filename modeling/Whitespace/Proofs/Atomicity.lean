/-
Module: Whitespace.Proofs.Atomicity
Purpose: A step is carried out as a whole or not at all. It may take several tries, because a read has to
  wait and something is done to its input meanwhile. When the last try fails, or when the step is given
  up while it waits, the state and the output are those from before the first try, and so is the input,
  except that what was fed meanwhile has been added at its end.
Main exports: Attempt, refilled_of_step, Attempt.port_only, Attempt.failure, Attempt.remaining,
  Attempt.remaining_abandon, step_atomic
-/
import Whitespace.Proofs.RemainingInput
import Whitespace.Proofs.StepCases

namespace Whitespace.Machine

open Input (Action Port)

/-- A step under way: it is tried, and whenever it has to wait it may be tried again after some actions
    of the feeding side. All the actions are listed, with how the latest try has ended. -/
inductive Attempt (program : Program) (m : Machine) : List Action → Outcome → Machine → Prop where
  | once {o : Outcome} {m' : Machine} : m.step program = (o, m') → Attempt program m [] o m'
  | again {acts more : List Action} {o : Outcome} {m' m'' : Machine} :
      Attempt program m acts .waiting m' →
      { m' with input := more.foldl Port.act m'.input }.step program = (o, m'') →
      Attempt program m (acts ++ more) o m''

/-! ### Reads -/

section

variable {program : Program} {m m' : Machine} {o : Outcome} {port port' : Port}

/-- A read that brings nothing has only asked for text, unless it has met text that is no number. -/
theorem refilled_of_reads {r : Input.Outcome Int} (h : Reads port (r, port')) (none : ∀ n, r ≠ .value n)
    (number : ∀ text, r ≠ .failed (.malformed text)) :
    port.Refilled port' ∧ (r = .waiting → port'.source.isWaiting = true) := by
  rcases h with character | read
  · cases read : port.readCharacter with
    | mk o q =>
        rw [read] at character
        cases o with
        | value c =>
            cases character
            exact absurd rfl (none _)
        | failed e =>
            cases character
            exact ⟨(Port.refilled_of_readCharacter read nofun).1, nofun⟩
        | waiting =>
            cases character
            obtain ⟨refilled, waits⟩ := Port.refilled_of_readCharacter read nofun
            exact ⟨refilled, fun _ => waits rfl⟩
  · exact Port.refilled_of_readNumber read.symm none number

/-- A step that does not complete has only asked for text, unless it has met text that is no number. -/
theorem refilled_of_step (h : m.step program = (o, m')) (failing : o ≠ .done)
    (number : ∀ f text, o = .failed f → f.fault ≠ .input (.malformed text)) :
    m.input.Refilled m'.input ∧ (o = .waiting → m'.input.source.isWaiting = true) := by
  have cases := step_cases program m
  rw [h] at cases
  cases cases with
  | halted | completed => exact absurd rfl failing
  | past => exact ⟨.refl _, nofun⟩
  | faulted _ _ performed =>
      rcases perform_faulted performed with ⟨-, rfl⟩ | ⟨e, port, rfl, reads, rfl⟩
      · exact ⟨.refl _, nofun⟩
      · refine ⟨(refilled_of_reads reads nofun ?_).1, nofun⟩
        rintro text same
        cases same
        exact number _ text rfl rfl
  | waiting _ _ performed =>
      obtain ⟨port, reads, rfl⟩ := perform_waiting performed
      obtain ⟨refilled, waits⟩ := refilled_of_reads reads nofun nofun
      exact ⟨refilled, fun _ => waits rfl⟩

end

/-! ### Actions while a read waits -/

section

variable {p : Port} {f : Input.Feed} {acts : List Action}

theorem orderly_foldl_act (h : p.source.Orderly) (acts : List Action) :
    (acts.foldl Port.act p).source.Orderly := by
  induction acts generalizing p with
  | nil => exact h
  | cons a rest ih => exact ih (Port.orderly_act h a)

/-- What the feeding side does, short of calling the input off, adds its text at the end. -/
theorem remaining_foldl_act (h : p.source.Orderly) (fed : p.source = .feed f)
    (kept : .cancel ∉ acts) :
    (acts.foldl Port.act p).remaining = p.remaining ++ acts.flatMap Action.text := by
  induction acts generalizing p f with
  | nil => simp
  | cons a rest ih =>
      have other : a ≠ .cancel := (List.ne_of_not_mem_cons kept).symm
      rw [List.foldl_cons, ih (Port.orderly_act h a) (Port.source_act fed a)
        (List.not_mem_of_not_mem_cons kept), Port.remaining_act h fed other, List.flatMap_cons,
        List.append_assoc]

/-- Actions that supply no text put none on its way to a read. -/
theorem sent_foldl_act (fed : p.source = .feed f) (nothing : f.waiter.sent = "")
    (silent : ∀ a ∈ acts, a.text = []) :
    ∃ g, (acts.foldl Port.act p).source = .feed g ∧ g.waiter.sent = "" := by
  induction acts generalizing p f with
  | nil => exact ⟨f, fed, nothing⟩
  | cons a rest ih =>
      have still := Input.Feed.sent_act_of_silent nothing (silent a List.mem_cons_self)
      exact ih (Port.source_act fed a) still fun b hb => silent b (List.mem_cons_of_mem a hb)

end

/-! ### Attempts -/

section

variable {program : Program} {m m' : Machine} {acts : List Action} {o : Outcome}

/-- An attempt that has not completed has changed nothing but the port. -/
theorem Attempt.port_only (h : m.Attempt program acts o m') (failing : o ≠ .done) :
    ∃ port, m' = { m with input := port } := by
  induction h with
  | once stepped => exact step_not_done stepped failing
  | again _ stepped ih =>
      obtain ⟨port, rfl⟩ := ih nofun
      obtain ⟨port', rfl⟩ := step_not_done stepped failing
      exact ⟨port', rfl⟩

/-- A failure is that of the instruction at the place where the attempt began. -/
theorem Attempt.failure {f : Failure} (h : m.Attempt program acts (.failed f) m') :
    f.pc = m.state.pc ∧ f.instruction? = program.instruction? m.state.pc := by
  cases h with
  | once stepped => exact step_failed stepped
  | again before stepped =>
      obtain ⟨port, rfl⟩ := before.port_only nofun
      have failure := step_failed stepped
      exact failure

/-- During an attempt nothing is taken from the input, and what is fed is added at its end. -/
theorem Attempt.remaining (h : m.Attempt program acts o m') (orderly : m.input.source.Orderly)
    (failing : o ≠ .done) (number : ∀ f text, o = .failed f → f.fault ≠ .input (.malformed text))
    (kept : .cancel ∉ acts) :
    m'.input.remaining = m.input.remaining ++ acts.flatMap Action.text ∧
      m'.input.source.Orderly ∧ (o = .waiting → m'.input.source.isWaiting = true) := by
  induction h with
  | once stepped =>
      obtain ⟨refilled, waits⟩ := refilled_of_step stepped failing number
      exact ⟨by simp [refilled.remaining_eq], refilled.orderly orderly, waits⟩
  | @again acts more o m' m'' before stepped ih =>
      rw [List.mem_append, not_or] at kept
      obtain ⟨earlier, orderly', waiting⟩ := ih nofun (fun _ _ failed => nomatch failed) kept.1
      obtain ⟨f, fed, -⟩ := Input.Source.exists_parked (waiting rfl)
      obtain ⟨refilled, waits⟩ := refilled_of_step stepped failing number
      refine ⟨?_, refilled.orderly (orderly_foldl_act orderly' more), waits⟩
      rw [refilled.remaining_eq, remaining_foldl_act orderly' fed kept.2, earlier, List.flatMap_append,
        List.append_assoc]

/-- Giving up an attempt that waits takes nothing from the input either. -/
theorem Attempt.remaining_abandon (h : m.Attempt program acts .waiting m')
    (orderly : m.input.source.Orderly) {later : List Action} (silent : ∀ a ∈ later, a.text = [])
    (kept : .cancel ∉ acts) (kept' : .cancel ∉ later) :
    (later.foldl Port.act m'.input).abandon.remaining =
      m.input.remaining ++ acts.flatMap Action.text := by
  obtain ⟨remaining, orderly', waiting⟩ := h.remaining orderly nofun
    (fun _ _ failed => nomatch failed) kept
  obtain ⟨f, fed, parked⟩ := Input.Source.exists_parked (waiting rfl)
  have nothing : f.waiter.sent = "" := by
    rw [parked]
    rfl
  obtain ⟨g, fed', nothing'⟩ := sent_foldl_act fed nothing silent
  have quiet : later.flatMap Action.text = [] := List.flatMap_eq_nil_iff.2 silent
  rw [Port.remaining_abandon fed' nothing', remaining_foldl_act orderly' fed kept', quiet,
    List.append_nil, remaining]

end

/-! ### Atomicity -/

/-- A step that fails, or that is given up while it waits and nothing has been fed since its latest try,
    leaves the state and the output as they were, and a failure is that of the instruction at the current
    place. Nothing is taken from the input either, and what was fed meanwhile follows what was there, unless
    the step has met text that is no number or the input was called off; a read that was parked before must
    have been so for want of text, which is the case for every port without a parked read. -/
theorem step_atomic {program : Program} {m m' : Machine} {acts : List Action} {o : Outcome}
    (attempt : m.Attempt program acts o m') :
    (∀ f, o = .failed f →
      m'.state = m.state ∧ m'.output = m.output ∧
        f.pc = m.state.pc ∧ f.instruction? = program.instruction? m.state.pc ∧
        (m.input.source.Orderly → (∀ text, f.fault ≠ .input (.malformed text)) →
          .cancel ∉ acts →
          m'.input.remaining = m.input.remaining ++ acts.flatMap Action.text)) ∧
    (o = .waiting → ∀ later : List Action, (∀ a ∈ later, a.text = []) →
      let dropped := { m' with input := (later.foldl Port.act m'.input).abandon }
      dropped.state = m.state ∧ dropped.output = m.output ∧
        (m.input.source.Orderly → .cancel ∉ acts → .cancel ∉ later →
          dropped.input.remaining = m.input.remaining ++ acts.flatMap Action.text)) := by
  constructor
  · rintro f rfl
    obtain ⟨pc, here⟩ := attempt.failure
    obtain ⟨port, rfl⟩ := attempt.port_only nofun
    refine ⟨rfl, rfl, pc, here, ?_⟩
    intro orderly number kept
    refine (attempt.remaining orderly nofun ?_ kept).1
    intro g text same
    cases same
    exact number text
  · rintro rfl later silent
    obtain ⟨port, rfl⟩ := attempt.port_only nofun
    refine ⟨rfl, rfl, ?_⟩
    intro orderly kept kept'
    exact attempt.remaining_abandon orderly silent kept kept'

/-- A machine that is about to read a number into the cell 5 and has been fed nothing. -/
def starved : Machine := { state := { stack := .ofList [5] }, input := { source := .fresh } }

/-- The starved machine is fed a number whose end never comes. The read fails, and the digits are still
    there. -/
theorem step_atomic_starved :
    let program := Program.ofInstructions [.io .readNumber]
    ∃ m', starved.Attempt program [.feed "4", .feed "2", .close]
        (.failed ⟨0, some (.io .readNumber), .input .exhausted⟩) m' ∧
      m'.state = starved.state ∧ m'.output = starved.output ∧ m'.input.remaining = ['4', '2'] := by
  intro program
  have first : starved.step program =
      (.waiting, { starved with input := { source := .feed { waiter := .parked } } }) :=
    step_eq_of_not_done (by decide +kernel) (by decide +kernel) nofun
  have second :
      { starved with
        input := [Action.feed "4"].foldl Port.act { source := .feed { waiter := .parked } } }.step
          program =
        (.waiting, { starved with input := { source := .feed { waiter := .parked }, buffer := ['4'] } }) :=
    step_eq_of_not_done (by decide +kernel) (by decide +kernel) nofun
  have third :
      { starved with
        input := [Action.feed "2", .close].foldl Port.act
          { source := .feed { waiter := .parked }, buffer := ['4'] } }.step program =
        (.failed ⟨0, some (.io .readNumber), .input .exhausted⟩,
          { starved with input := { source := .feed { closed := true }, buffer := ['4', '2'] } }) :=
    step_eq_of_not_done (by decide +kernel) (by decide +kernel) nofun
  have attempt := Attempt.again (.again (.once first) second) third
  obtain ⟨state, output, -, -, remaining⟩ := (step_atomic attempt).1 _ rfl
  have orderly : starved.input.source.Orderly := Input.Source.orderly_of_not_isWaiting rfl
  exact ⟨_, attempt, state, output, remaining orderly nofun (by decide)⟩

end Whitespace.Machine

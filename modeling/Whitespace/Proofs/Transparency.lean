/-
Module: Whitespace.Proofs.Transparency
Purpose: Debugging does not change what a program computes. However a session is run, stopped and run
  again, and wherever breakpoints are set, its machine is the one that plain steps lead to, but for the
  pause. As every completed instruction is counted and a step that does not complete leaves the state
  alone, the count of steps says which machine that is.
Main exports: Machine.withPause, perform_withPause, step_withPause, after_same_steps, Replays,
  replays_follow, debugging_transparent
-/
import Whitespace.Proofs.History
import Whitespace.Proofs.Lockstep
import Whitespace.Proofs.Obedience

namespace Whitespace

namespace Machine

/-! ### The pause and the breakpoints -/

def withPause (m : Machine) (paused : Bool) : Machine :=
  { m with state := { m.state with paused } }

/-- The effect with the pause of its machine set or cleared. -/
def Effect.withPause (paused : Bool) : Effect → Effect
  | .completed m => .completed (m.withPause paused)
  | .faulted f m => .faulted f (m.withPause paused)
  | .waiting m => .waiting (m.withPause paused)

section

variable (program : Program) (m : Machine) (paused : Bool) (breakpoints : Std.TreeSet Nat)

/-- An instruction takes no notice of the pause. -/
theorem perform_withPause (i : Instruction) :
    (m.withPause paused).perform program i = (m.perform program i).withPause paused := by
  cases flow : i.isFlow with
  | false =>
      rcases perform_eq_apply flow m.state.stack m.state.heap m.input m.output with ⟨change, spec⟩
      rw [spec program m rfl rfl rfl rfl, spec program (m.withPause paused) rfl rfl rfl rfl]
      cases change <;> rfl
  | true =>
      cases i with
      | flow command =>
          have unobserved := runFlow_unobserved program m.state command paused m.state.steps
          rw [perform_flow, perform_flow]
          change (m.withPause paused).allOrNothing
              (runFlow program { m.state with paused, steps := m.state.steps } command) = _
          rw [unobserved]
          cases ran : runFlow program m.state command with
          | error f => rfl
          | ok s =>
              rcases runFlow_eq_ok ran with ⟨-, steps, -⟩
              rw [← steps]
              rfl
      | _ => cases flow

/-- An instruction takes no notice of the breakpoints. -/
theorem perform_withBreakpoints (i : Instruction) :
    m.perform { program with breakpoints } i = m.perform program i := by
  cases i with
  | flow command => cases command <;> rfl
  | _ => rfl

/-- Breakpoints and the pause have an influence on the pause alone. -/
theorem step_withPause :
    ∃ paused', (m.withPause paused).step { program with breakpoints } =
      ((m.step program).1, (m.step program).2.withPause paused') := by
  have here : ({ program with breakpoints } : Program).instruction? (m.withPause paused).state.pc =
      program.instruction? m.state.pc := rfl
  have halted : (m.withPause paused).state.halted = m.state.halted := rfl
  unfold step
  rw [here, halted]
  cases m.state.halted with
  | true => exact ⟨paused, rfl⟩
  | false =>
      cases program.instruction? m.state.pc with
      | none => exact ⟨paused, rfl⟩
      | some i =>
          simp only [perform_withBreakpoints, perform_withPause]
          cases m.perform program i with
          | completed m' => exact ⟨_, rfl⟩
          | faulted f m' => exact ⟨paused, rfl⟩
          | waiting m' => exact ⟨paused, rfl⟩

/-! ### The count of steps -/

/-- A step counts, or it leaves everything but the port as it was. -/
theorem step_counts :
    (m.step program).2.state.steps = m.state.steps + 1 ∨
      ∃ port, (m.step program).2 = { m with input := port } := by
  rcases stepped : m.step program with ⟨o, m'⟩
  by_cases completed : o = .done
  · subst completed
    rcases step_done stepped with ⟨-, rfl⟩ | ⟨i, executes⟩
    · exact .inr ⟨_, rfl⟩
    · exact .inl executes.steps
  · exact .inr (step_not_done stepped completed)

/-- The count of steps never falls, and while it stays the same nothing but the port changes. -/
theorem after_same_steps (n : Nat) :
    m.state.steps ≤ (m.after program n).state.steps ∧
      ((m.after program n).state.steps = m.state.steps →
        ∃ port, m.after program n = { m with input := port }) := by
  induction n with
  | zero => exact ⟨Nat.le_refl _, fun _ => ⟨m.input, rfl⟩⟩
  | succ n ih =>
      rcases ih with ⟨grows, stays⟩
      unfold after at grows stays ⊢
      rw [Function.iterate_succ_apply']
      generalize (fun m => (m.step program).2)^[n] m = m' at grows stays ⊢
      rcases step_counts program m' with counted | ⟨port, unchanged⟩
      · constructor
        · omega
        · intro same
          omega
      · rw [unchanged]
        refine ⟨grows, ?_⟩
        intro same
        rcases stays same with ⟨port', rfl⟩
        exact ⟨port, rfl⟩

/-- Of two machines reached by plain steps, those that have counted as many steps differ in nothing but
    the port. -/
theorem after_eq_of_steps_eq {i j : Nat}
    (same : (m.after program i).state.steps = (m.after program j).state.steps) :
    (m.after program i).state = (m.after program j).state ∧
      (m.after program i).output = (m.after program j).output := by
  -- The one reached later is reached from the other by steps that have counted nothing.
  wlog ordered : i ≤ j generalizing i j with swapped
  · rcases swapped same.symm (Nat.le_of_not_le ordered) with ⟨state, output⟩
    exact ⟨state.symm, output.symm⟩
  · rcases Nat.exists_eq_add_of_le' ordered with ⟨k, rfl⟩
    have later : m.after program (k + i) = (m.after program i).after program k :=
      Function.iterate_add_apply _ k i m
    rw [later] at same ⊢
    rcases (after_same_steps program (m.after program i) k).2 same.symm with ⟨port, unchanged⟩
    rw [unchanged]
    exact ⟨rfl, rfl⟩

end

end Machine

namespace Session

/-! ### Histories -/

/-- The machine of the session is one that plain steps from the other session lead to, but for the pause,
    and the program is the same but for the breakpoints. -/
def Replays (s s' : Session) : Prop :=
  (∃ n paused, s'.machine = (s.machine.after s.program n).withPause paused) ∧
    ∃ breakpoints, s'.program = { s.program with breakpoints }

variable {s s' s'' : Session} {events events' : List Event}

/-- Every quiet change keeps to the plain steps. -/
theorem Replays.quiet (replays : s.Replays s') (changed : s'.Quiet s'') : s.Replays s'' := by
  rcases replays with ⟨⟨n, paused, machine⟩, breakpoints, program⟩
  cases changed with
  | same => exact ⟨⟨n, paused, machine⟩, breakpoints, program⟩
  | flagged wish => exact ⟨⟨n, paused, machine⟩, breakpoints, program⟩
  | unpaused =>
      refine ⟨⟨n, false, ?_⟩, breakpoints, program⟩
      unfold unpause mapState
      rw [machine]
      rfl
  | toggled place =>
      refine ⟨⟨n, paused, machine⟩, ?_⟩
      rcases s'.program.exists_toggleBreakpoint place with ⟨breakpoints', toggled⟩
      refine ⟨breakpoints', ?_⟩
      unfold toggleBreakpoint
      rw [toggled, program]
  | stepped =>
      refine ⟨⟨n + 1, ?_⟩, breakpoints, program⟩
      rcases Machine.step_withPause s.program (s.machine.after s.program n) paused breakpoints with
        ⟨paused', stepped⟩
      refine ⟨paused', ?_⟩
      change (s'.machine.step s'.program).2 = _
      rw [program, machine, stepped]
      unfold Machine.after
      rw [Function.iterate_succ_apply']

theorem replays_follow (debugging : ∀ e ∈ events, e.isDebugging = true) :
    s.Replays (s.follow events).session := by
  apply follow_invariant
  · exact ⟨⟨0, s.machine.state.paused, rfl⟩, s.program.breakpoints, rfl⟩
  · intro x e member replays
    apply replays.quiet
    exact quiet_after x (debugging e member)

/-- Whenever two histories of runs, breakpoints and wishes to stop have completed as many instructions,
    the states are the same but for the pause, the same has been written, and the programs are the same
    but for the breakpoints. -/
theorem debugging_transparent (debugging : ∀ e ∈ events, e.isDebugging = true)
    (debugging' : ∀ e ∈ events', e.isDebugging = true) :
    let x := (s.follow events).session
    let y := (s.follow events').session
    x.state.steps = y.state.steps →
      x.state = { y.state with paused := x.state.paused } ∧ x.machine.output = y.machine.output ∧
        x.program = { y.program with breakpoints := x.program.breakpoints } := by
  intro x y same
  rcases replays_follow (s := s) debugging with ⟨⟨i, paused, machine⟩, breakpoints, program⟩
  rcases replays_follow (s := s) debugging' with ⟨⟨j, paused', machine'⟩, breakpoints', program'⟩
  have steps : (s.machine.after s.program i).state.steps =
      (s.machine.after s.program j).state.steps := by
    unfold state at same
    rw [machine, machine'] at same
    exact same
  rcases Machine.after_eq_of_steps_eq s.program s.machine steps with ⟨state, output⟩
  refine ⟨?_, ?_, ?_⟩
  · unfold Session.state
    rw [machine, machine']
    unfold Machine.withPause
    rw [state]
  · rw [machine, machine']
    exact output
  · rw [program, program']

/-- A session over a program that calls a routine, which writes 7, and then reads a number. Its input is
    no number. -/
def errand : Session :=
  ((ofProgram (.ofInstructions
    [.flow (.call ⟨0⟩), .stack (.push 1), .io .readNumber, .flow .exit,
      .flow (.mark ⟨0⟩), .stack (.push 7), .io .writeNumber, .flow .ret])).feed "x\n").close

/-- Steps over the routine, goes on to the read and fails there. -/
def errandOver : List Event :=
  [.call .stepOver, .turn, .turn, .turn, .turn, .turn, .call .step, .turn, .call .step, .turn]

/-- Stops at a breakpoint in the routine, is interrupted, leaves the routine and stops at a breakpoint
    before the read. -/
def errandThrough : List Event :=
  [.toggle 6, .call .runUntilPause, .turn, .turn, .turn, .interrupt, .call .run, .turn, .toggle 2,
    .call .stepOut, .turn, .turn, .turn, .call .run, .turn]

/-- Both ways through the errand come to the same machine. -/
theorem debugging_transparent_errand :
    let x := (errand.follow errandOver).session
    let y := (errand.follow errandThrough).session
    x.state.steps = 5 ∧ y.state.steps = 5 ∧ x.state = { y.state with paused := x.state.paused } ∧
      x.machine.output = y.machine.output := by
  have steps : (errand.follow errandOver).session.state.steps = 5 := by decide +kernel
  have steps' : (errand.follow errandThrough).session.state.steps = 5 := by decide +kernel
  have debugging : ∀ e ∈ errandOver, e.isDebugging = true := by decide
  have debugging' : ∀ e ∈ errandThrough, e.isDebugging = true := by decide
  rcases debugging_transparent debugging debugging' (steps.trans steps'.symm) with
    ⟨state, output, -⟩
  exact ⟨steps, steps', state, output⟩

end Session

end Whitespace

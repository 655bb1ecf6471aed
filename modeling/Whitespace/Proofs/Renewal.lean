/-
Module: Whitespace.Proofs.Renewal
Purpose: Commands that are started anew where they were left. A run that is given up leaves its aim behind,
  and its command is started anew with the aim that it starts with. That comes to the same for commands
  that do not count calls. A command that counts calls loses count, and it comes to the same only as long
  as it waits in the routine in which it was started.
Main exports: Restarts, Restarts.renews, Command.countsCalls, renews_of_not_countsCalls, Level,
  renews_of_level
-/
import Whitespace.Proofs.LateRuns
import Whitespace.Proofs.Stopping

namespace Whitespace.Session

/-- The relation ties the aim of a run to its session. No port has a part in it and completed steps keep
    it; and where it holds and the test is passed, the command would be started anew with this aim. -/
structure Restarts (c : Command) (related : Aim → Session → Prop) (test : Session → Prop) : Prop where
  port {aim : Aim} {s : Session} (port : Input.Port) : related aim s → related aim (s.withInput port)
  keeps {aim aim' : Aim} {s : Session} : related aim s → Run.Goes ⟨aim, false⟩ s → s.Completes →
    aim.afterStep s s.stepped = some aim' → related aim' s.stepped
  anew {aim : Aim} {s : Session} : related aim s → Run.Goes ⟨aim, false⟩ s → test s →
    s.begin c = (⟨aim, false⟩, s)

section

variable {s s' : Session} {run run' : Run} {c : Command} {services : List Service}
  {related : Aim → Session → Prop} {test : Session → Prop}

/-- A run that goes on was not at its end and has completed a step, and its aim is what remains to be
    reached after it. -/
theorem turn_onward_aim (sound : run.Sound s) (onward : s.turn run = (.onward run', s')) :
    run.Goes s ∧ s.Completes ∧ s' = s.stepped ∧ run.aim.afterStep s s.stepped = some run'.aim := by
  have goes : run.Goes s := goes_of_turn sound (by rw [onward]; nofun)
  rw [turn_of_goes goes] at onward
  refine ⟨goes, ?_⟩
  unfold Completes stepped
  unfold takeStep at onward
  generalize s.machine.step s.program = r at onward ⊢
  obtain ⟨o, m⟩ := r
  cases o with
  | failed f | waiting => cases onward
  | done =>
      simp only at onward
      split at onward
      · next next =>
        cases onward
        exact ⟨rfl, rfl, next⟩
      · cases onward

/-- A command whose aim is tied to the session is started anew where it was left, as long as the test is
    passed whenever its run waits. -/
theorem Restarts.renews (restarts : Restarts c related test) (start : related run.aim s)
    (sound : run.Sound s) (tested : AtWaits (fun _ s => test s) c services run s) :
    Renews c services run s := by
  intro run₁ s₁ meets
  induction meets with
  | here waits =>
      obtain ⟨aim, goes, port, rfl⟩ := turn_waiting sound waits
      have start' := restarts.port port start
      rw [← aim] at start'
      exact restarts.anew start' goes (tested _ _ (.here waits))
  | onward onward _ ih =>
      obtain ⟨goes, completes, rfl, next⟩ := turn_onward_aim sound onward
      apply ih (restarts.keeps start goes completes next) _ (tested.onward onward)
      intro resumed
      rw [(turn_onward onward).1] at resumed
      cases resumed
  | @served v rest run run' run'' s s' s'' waits _ ih =>
      obtain ⟨aim, goes, port, rfl⟩ := turn_waiting sound waits
      have start' := restarts.port port start
      rw [← aim] at start'
      have renews := restarts.anew start' goes (tested _ _ (.here waits))
      obtain ⟨aim', session⟩ := serve_eq (v := v) renews
      apply ih _ (sound_serve goes) (tested.serve waits)
      rw [aim', session, supply_eq _ v.afterwards]
      apply restarts.port
      cases v.givesUp with
      | false =>
          rw [if_neg Bool.false_ne_true, supply_eq]
          exact restarts.port _ start'
      | true =>
          rw [if_pos rfl, abandon_eq, supply_eq]
          exact restarts.port _ (restarts.port _ start')

end

/-! ### Commands that do not count calls -/

/-- Does the command follow calls and returns? -/
def Command.countsCalls : Command → Bool
  | .step | .run | .runUntilPause => false
  | .stepOver | .stepOut => true

section

variable {s : Session} {c : Command}

theorem unpause_of_not_paused (going : s.state.paused = false) : s.unpause = s := by
  obtain ⟨program, ⟨state, input, output⟩, interrupted⟩ := s
  obtain ⟨stack, heap, calls, pc, halted, paused, steps⟩ := state
  obtain rfl : paused = false := going
  rfl

/-- A single step is started anew where it was left. -/
theorem restarts_step : Restarts .step (fun aim _ => aim = .single) (fun _ => True) where
  port _ same := same
  keeps := by
    rintro _ aim' s rfl _ _ next
    cases next
  anew := by
    rintro _ s rfl _ _
    rfl

/-- A run to the end is started anew where it was left. -/
theorem restarts_run : Restarts .run (fun aim _ => aim = .halt) (fun _ => True) where
  port _ same := same
  keeps := by
    rintro _ aim' s rfl _ _ next
    exact (Option.some.inj next).symm
  anew := by
    rintro _ s rfl _ _
    rfl

/-- A run to a pause is started anew where it was left, for it does not wait while it is paused. -/
theorem restarts_runUntilPause : Restarts .runUntilPause (fun aim _ => aim = .pause) (fun _ => True) where
  port _ same := same
  keeps := by
    rintro _ aim' s rfl _ _ next
    exact (Option.some.inj next).symm
  anew := by
    rintro _ s rfl ⟨ahead, -⟩ _
    have going : s.state.paused = false := (Bool.or_eq_false_iff.1 ahead).2
    change (_, s.unpause) = _
    rw [unpause_of_not_paused going]

/-- A command that does not count calls is started anew where it was left. -/
theorem renews_of_not_countsCalls (services : List Service) (plain : c.countsCalls = false) (s : Session) :
    Renews c services (s.begin c).1 (s.begin c).2 := by
  have sound := sound_begin s c
  cases c with
  | step => exact restarts_step.renews rfl sound fun _ _ _ => trivial
  | run => exact restarts_run.renews rfl sound fun _ _ _ => trivial
  | runUntilPause => exact restarts_runUntilPause.renews rfl sound fun _ _ _ => trivial
  | stepOver | stepOut => cases plain

end

/-! ### Commands that count calls -/

/-- As many routines are under way as given. -/
def Level (n : Nat) (s : Session) : Prop := s.state.calls.length = n

/-- The depth that a run counts fits the calls under way, which are as many as given where one routine is
    still to be left. -/
def Counts (n : Nat) (aim : Aim) (s : Session) : Prop :=
  ∃ depth, aim = .leave depth ∧ s.state.calls.length + 1 = n + depth

section

variable {s : Session} {i : Instruction} {depth n : Nat} {services : List Service} {c : Command}

/-- The depth that a run counts and the number of calls under way move together. -/
theorem length_calls_stepped (executes : s.machine.Executes s.program i s.stepped.machine)
    (inside : depth ≠ 0) :
    s.stepped.state.calls.length + depth = s.state.calls.length + s.depthAfter depth := by
  have here : s.program.instruction? s.state.pc = some i := executes.here
  have moves := executes.moves
  unfold depthAfter
  rw [here]
  generalize control : s.machine.state.control = before at moves
  generalize control' : s.stepped.machine.state.control = after at moves
  have calls : s.state.calls = before.calls := congrArg Machine.Control.calls control
  have calls' : s.stepped.state.calls = after.calls := congrArg Machine.Control.calls control'
  rw [calls, calls']
  cases moves with
  | onward call ret => simp only [call, ret, Bool.false_eq_true, if_false]
  | enter => simp only [Instruction.isCall, List.length_cons, if_true]; omega
  | leave called =>
      rw [called]
      simp only [Instruction.isCall, Instruction.isReturn, List.length_cons, Bool.false_eq_true, if_false,
        if_true]
      omega
  | halt => rfl

/-- A completed step changes the depth that is counted and the calls under way alike. -/
theorem Counts.keeps {aim aim' : Aim} (counts : Counts n aim s) (goes : Run.Goes ⟨aim, false⟩ s)
    (completes : s.Completes) (next : aim.afterStep s s.stepped = some aim') : Counts n aim' s.stepped := by
  obtain ⟨depth, rfl, fits⟩ := counts
  cases next
  have ahead := goes.1
  simp only [Aim.reached, Bool.or_eq_false_iff, decide_eq_false_iff_not] at ahead
  obtain ⟨⟨running, -⟩, inside⟩ := ahead
  obtain ⟨i, executes⟩ := executes_of_completes completes running
  have moved := length_calls_stepped executes inside
  refine ⟨s.depthAfter depth, rfl, ?_⟩
  omega

theorem Run.Goes.leave (goes : Run.Goes ⟨.leave depth, false⟩ s) : s.state.paused = false ∧ depth ≠ 0 := by
  have ahead := goes.1
  simp only [Aim.reached, Bool.or_eq_false_iff, decide_eq_false_iff_not] at ahead
  exact ⟨ahead.1.2, ahead.2⟩

/-- Stepping out is started anew where it was left as long as it waits in the routine that it leaves. -/
theorem restarts_stepOut (n : Nat) : Restarts .stepOut (Counts n) (Level n) where
  port _ counts := counts
  keeps := Counts.keeps
  anew := by
    rintro _ s ⟨depth, rfl, fits⟩ goes level
    have one : depth = 1 := by
      unfold Level at level
      omega
    subst one
    change (_, s.unpause) = _
    rw [unpause_of_not_paused goes.leave.1]

/-- Stepping over an instruction that is no call is started anew where it was left. -/
theorem restarts_stepOver_instruction (n : Nat) :
    Restarts .stepOver (fun aim s => aim = .single ∧ s.atCall = false) (Level n) where
  port _ related := related
  keeps := by
    rintro _ aim' s ⟨rfl, -⟩ _ _ next
    cases next
  anew := by
    rintro _ s ⟨rfl, other⟩ _ _
    exact begin_stepOver_of_not_atCall other

theorem halted_stepped (halted : s.state.halted = true) : s.stepped.state.halted = true := by
  have same : s.machine.step s.program = (.done, s.machine) := if_pos halted
  unfold stepped
  rw [same]
  exact halted

/-- Stepping over a call never waits outside of the routine that the call enters. -/
theorem restarts_stepOver_call (n : Nat) :
    Restarts .stepOver
      (fun aim s => (aim = .callee ∧ s.atCall = true ∧ s.state.paused = false ∧ Level n s) ∨
        Counts (n + 1) aim s) (Level n) where
  port _ related := related
  keeps := by
    rintro aim aim' s (⟨rfl, call, -, level⟩ | counts) goes completes next
    · simp only [Aim.afterStep, Bool.or_eq_true] at next
      split at next
      · cases next
      · next ahead =>
        cases next
        have running : s.state.halted = false := by
          by_contra halted
          exact ahead (.inr (halted_stepped (eq_true_of_ne_false halted)))
        obtain ⟨i, executes⟩ := executes_of_completes completes running
        refine .inr ⟨1, rfl, ?_⟩
        rw [calls_of_atCall call executes, List.length_cons, level]
    · exact .inr (counts.keeps goes completes next)
  anew := by
    rintro aim s (⟨rfl, call, going, -⟩ | ⟨depth, rfl, fits⟩) goes level
    · rw [begin_stepOver_of_atCall call, unpause_of_not_paused going]
    · have inside := goes.leave.2
      unfold Level at level
      omega

/-- A command that counts calls is started anew where it was left as long as it waits on the level on which
    it was started. -/
theorem renews_of_level (counts : c.countsCalls = true)
    (level : AtWaits (fun _ s' => Level s.state.calls.length s') c services (s.begin c).1 (s.begin c).2) :
    Renews c services (s.begin c).1 (s.begin c).2 := by
  have sound := sound_begin s c
  cases c with
  | step | run | runUntilPause => cases counts
  | stepOut =>
      have start : Counts s.state.calls.length (.leave 1) s.unpause := ⟨1, rfl, rfl⟩
      exact (restarts_stepOut _).renews start sound level
  | stepOver =>
      cases call : s.atCall with
      | false =>
          rw [begin_stepOver_of_not_atCall call] at sound level ⊢
          exact (restarts_stepOver_instruction _).renews ⟨rfl, call⟩ sound level
      | true =>
          rw [begin_stepOver_of_atCall call] at sound level ⊢
          exact (restarts_stepOver_call _).renews (.inl ⟨rfl, call, rfl, rfl⟩) sound level

end

end Whitespace.Session

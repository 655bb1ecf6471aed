/-
Module: Whitespace.Proofs.Stopping
Purpose: Where the commands of a session stop. Running until a pause stops after the first step that halts
  or comes to a breakpoint. Stepping out and stepping over a call stop after the first step that leaves the
  routine, unless a halt or a breakpoint comes before. What ties the depth that these runs count to the
  calls under way is one invariant, kept by every step. A run that is asked to stop does so before its next
  step, and uses the wish up unless it had to stop anyway.
Main exports: Session.after, FirstAfter, Ends, Leaves, Guides, Guides.finishes_iff, ends_iff_of_first,
  guides_pause, guides_leave, stops_at_first
-/
import Mathlib.Logic.Function.Iterate
import Whitespace.Proofs.History

namespace Whitespace.Session

/-! ### Steps in a row -/

/-- The session after as many steps as given, however they end. -/
def after (s : Session) (n : Nat) : Session :=
  stepped^[n] s

def Completes (s : Session) : Prop :=
  (s.machine.step s.program).1 = .done

/-- The machine has halted, or it stands at a breakpoint. -/
def Stops (s : Session) : Prop :=
  s.state.halted = true ∨ s.program.isBreakpoint s.state.pc = true

/-- The test is passed after so many steps, all of which complete, and not after fewer, the session itself
    not being tested. -/
structure FirstAfter (test : Session → Prop) (s : Session) (n : Nat) : Prop where
  positive : 0 < n
  completes : ∀ k < n, (s.after k).Completes
  passed : test (s.after n)
  earlier : ∀ k, 0 < k → k < n → ¬ test (s.after k)

/-- The same, the session itself being tested first. -/
inductive First (test : Session → Prop) : Session → Nat → Prop where
  | here {s : Session} : test s → First test s 0
  | later {s : Session} {n : Nat} : ¬ test s → s.Completes → First test s.stepped n →
      First test s (n + 1)

section

variable {test : Session → Prop} {s : Session} {n : Nat}

theorem First.passed (h : First test s n) : test (s.after n) := by
  induction h with
  | here passed => exact passed
  | later _ _ _ ih => exact ih

/-- Before the first state that passes the test, all states fail it and all steps complete. -/
theorem First.before (h : First test s n) : ∀ k < n, ¬ test (s.after k) ∧ (s.after k).Completes := by
  induction h with
  | here passed => nofun
  | later failed completes _ ih =>
      intro k below
      cases k with
      | zero => exact ⟨failed, completes⟩
      | succ k => exact ih k (Nat.lt_of_succ_lt_succ below)

/-- A state that passes the test is the first one if all states before it fail and their steps complete. -/
theorem first_of_before (passed : test (s.after n))
    (before : ∀ k < n, ¬ test (s.after k) ∧ (s.after k).Completes) : First test s n := by
  induction n generalizing s with
  | zero => exact .here passed
  | succ n ih =>
      rcases before 0 n.succ_pos with ⟨failed, completes⟩
      apply First.later failed completes
      apply ih passed
      intro k below
      exact before (k + 1) (Nat.succ_lt_succ below)

/-- Passing a test at first after the start means passing it at first from the second session on. -/
theorem firstAfter_iff :
    FirstAfter test s n ↔ ∃ k, n = k + 1 ∧ s.Completes ∧ First test s.stepped k := by
  constructor
  · rintro ⟨positive, completes, passed, earlier⟩
    rcases Nat.exists_eq_add_one.2 positive with ⟨k, rfl⟩
    refine ⟨k, rfl, completes 0 positive, first_of_before passed ?_⟩
    intro j below
    exact ⟨earlier (j + 1) j.succ_pos (Nat.succ_lt_succ below),
      completes (j + 1) (Nat.succ_lt_succ below)⟩
  · rintro ⟨k, rfl, completes, first⟩
    refine ⟨k.succ_pos, ?_, first.passed, ?_⟩
    · intro j below
      cases j with
      | zero => exact completes
      | succ j => exact (first.before j (Nat.lt_of_succ_lt_succ below)).2
    · intro j positive below
      rcases Nat.exists_eq_add_one.2 positive with ⟨i, rfl⟩
      exact (first.before i (Nat.lt_of_succ_lt_succ below)).1

end

/-! ### Runs that nobody interrupts -/

/-- The command ends in the second session, if it is given enough turns. -/
def Ends (s : Session) (command : Command) (s' : Session) : Prop :=
  ∃ turns, launch turns s command = (.finished, s')

/-- As long as the relation holds of the aim of a run and its session, the aim is reached when the test is
    passed, and completed steps keep the relation. -/
structure Guides (related : Aim → Session → Prop) (test : Session → Prop) : Prop where
  heeds {aim : Aim} {s : Session} : related aim s → aim.heedsInterrupt = true
  reached_iff {aim : Aim} {s : Session} : related aim s → (aim.reached s.state = true ↔ test s)
  keeps {aim : Aim} {s : Session} : related aim s → ¬ test s → s.Completes →
    ∃ aim', aim.afterStep s s.stepped = some aim' ∧ related aim' s.stepped

section

variable {related : Aim → Session → Prop} {test : Session → Prop} {aim aim' : Aim} {s s' : Session}
  {turns n : Nat}

/-- A run whose step completes goes on with what remains of its aim. -/
theorem takeStep_of_completes (completes : s.Completes) :
    s.takeStep aim =
      match aim.afterStep s s.stepped with
      | some aim' => (.onward ⟨aim', false⟩, s.stepped)
      | none => (.finished, s.stepped) := by
  unfold Completes at completes
  unfold takeStep stepped
  generalize s.machine.step s.program = r at completes ⊢
  rcases r with ⟨o, m⟩
  cases completes
  rfl

/-- A run that carries out a step goes on from the stepped session, or ends there. -/
theorem advance_of_takeStep (steps : s.turn ⟨aim, false⟩ = s.takeStep aim) :
    advance (turns + 1) ⟨aim, false⟩ s = (.finished, s') ↔
      s.Completes ∧
        ((aim.afterStep s s.stepped = none ∧ s' = s.stepped) ∨
          ∃ aim', aim.afterStep s s.stepped = some aim' ∧
            advance turns ⟨aim', false⟩ s.stepped = (.finished, s')) := by
  rw [advance, steps]
  by_cases completes : s.Completes
  · rw [takeStep_of_completes completes]
    cases aim.afterStep s s.stepped with
    | none => simp [completes, eq_comm]
    | some aim' => simp [completes]
  · have open' := completes
    unfold Completes at open'
    unfold takeStep
    generalize s.machine.step s.program = r at open' ⊢
    rcases r with ⟨o, m⟩
    cases o with
    | done => exact absurd rfl open'
    | failed f | waiting => simp [completes]

theorem turn_of_reached (reached : aim.reached s.state = true) :
    s.turn ⟨aim, false⟩ = (.finished, s) := by
  simp [turn, reached]

theorem turn_of_not_reached (ahead : aim.reached s.state = false) (free : s.interrupted = false) :
    s.turn ⟨aim, false⟩ = s.takeStep aim := by
  simp [turn, ahead, free]

/-- A guided run ends where the test is passed first. -/
theorem Guides.finishes_iff (guides : Guides related test) (start : related aim s)
    (free : s.interrupted = false) :
    (∃ turns, advance turns ⟨aim, false⟩ s = (.finished, s')) ↔
      ∃ n, First test s n ∧ s' = s.after n := by
  constructor
  · rintro ⟨turns, finished⟩
    -- One turn after the other; the aim of the run changes, its relation to the session does not.
    induction turns generalizing aim s with
    | zero => cases finished
    | succ turns ih =>
        by_cases passed : test s
        · unfold advance at finished
          rw [turn_of_reached ((guides.reached_iff start).2 passed)] at finished
          cases finished
          exact ⟨0, .here passed, rfl⟩
        · have ahead : aim.reached s.state = false :=
            eq_false_of_ne_true (mt (guides.reached_iff start).1 passed)
          rcases (advance_of_takeStep (turn_of_not_reached ahead free)).1 finished with
            ⟨completes, more⟩
          rcases guides.keeps start passed completes with ⟨aim', next, related'⟩
          rw [next] at more
          rcases more with ⟨ended, -⟩ | ⟨aim'', same, finished'⟩
          · cases ended
          · cases same
            rcases ih related' free finished' with ⟨n, first, rfl⟩
            exact ⟨n + 1, .later passed completes first, rfl⟩
  · rintro ⟨n, first, rfl⟩
    induction first generalizing aim with
    | here passed =>
        refine ⟨1, ?_⟩
        rw [advance, turn_of_reached ((guides.reached_iff start).2 passed)]
        rfl
    | @later s n failed completes first ih =>
        have ahead : aim.reached s.state = false :=
          eq_false_of_ne_true (mt (guides.reached_iff start).1 failed)
        rcases guides.keeps start failed completes with ⟨aim', next, related'⟩
        rcases ih related' free with ⟨turns, finished⟩
        refine ⟨turns + 1, ?_⟩
        apply (advance_of_takeStep (turn_of_not_reached ahead free)).2
        exact ⟨completes, .inr ⟨aim', next, finished⟩⟩

/-- The relation holds of every session up to the one where the test is passed first. -/
theorem Guides.related_after (guides : Guides related test) (start : related aim s)
    (first : First test s n) : ∀ k ≤ n, ∃ aim', related aim' (s.after k) := by
  induction first generalizing aim with
  | here =>
      intro k none
      rw [Nat.le_zero.1 none]
      exact ⟨aim, start⟩
  | later failed completes _ ih =>
      intro k upTo
      rcases guides.keeps start failed completes with ⟨aim', -, related'⟩
      cases k with
      | zero => exact ⟨aim, start⟩
      | succ k => exact ih related' k (Nat.le_of_succ_le_succ upTo)

/-- A run whose first turn carries out a step ends where the test is passed first after that, if the
    step ends the run only where the test is passed, and a guided run follows otherwise. -/
theorem ends_iff_of_first (guides : Guides related test) (steps : s.turn ⟨aim, false⟩ = s.takeStep aim)
    (free : s.interrupted = false)
    (then' : s.Completes →
      (aim.afterStep s s.stepped = none ∧ test s.stepped) ∨
        ∃ aim', aim.afterStep s s.stepped = some aim' ∧ related aim' s.stepped) :
    (∃ turns, advance turns ⟨aim, false⟩ s = (.finished, s')) ↔
      ∃ n, FirstAfter test s n ∧ s' = s.after n := by
  constructor
  · rintro ⟨turns, finished⟩
    cases turns with
    | zero => cases finished
    | succ turns =>
        rcases (advance_of_takeStep steps).1 finished with
          ⟨completes, ⟨ended, rfl⟩ | ⟨aim', next, more⟩⟩
        · rcases then' completes with ⟨-, passed⟩ | ⟨aim', next, -⟩
          · exact ⟨1, firstAfter_iff.2 ⟨0, rfl, completes, .here passed⟩, rfl⟩
          · rw [ended] at next
            cases next
        · rcases then' completes with ⟨ended, -⟩ | ⟨aim'', next', related'⟩
          · rw [ended] at next
            cases next
          · obtain rfl : aim' = aim'' := Option.some.inj (next.symm.trans next')
            rcases (guides.finishes_iff related' free).1 ⟨turns, more⟩ with ⟨n, first, rfl⟩
            exact ⟨n + 1, firstAfter_iff.2 ⟨n, rfl, completes, first⟩, rfl⟩
  · rintro ⟨n, firstAfter, rfl⟩
    rcases firstAfter_iff.1 firstAfter with ⟨n, rfl, completes, first⟩
    rcases then' completes with ⟨ended, passed⟩ | ⟨aim', next, related'⟩
    · refine ⟨1, (advance_of_takeStep steps).2 ⟨completes, .inl ⟨ended, ?_⟩⟩⟩
      cases first with
      | here => rfl
      | later failed => exact absurd passed failed
    · rcases (guides.finishes_iff related' free).2 ⟨n, first, rfl⟩ with ⟨turns, finished⟩
      exact ⟨turns + 1, (advance_of_takeStep steps).2 ⟨completes, .inr ⟨aim', next, finished⟩⟩⟩

end

/-! ### Breakpoints -/

/-- The session is paused exactly if it stands at a breakpoint. -/
def PausedAtBreakpoint (s : Session) : Prop :=
  s.state.paused = s.program.isBreakpoint s.state.pc

section

variable {s : Session} {i : Instruction}

/-- A completed step of a machine that has not halted executes an instruction. -/
theorem executes_of_completes (completes : s.Completes) (running : s.state.halted = false) :
    ∃ i, s.machine.Executes s.program i s.stepped.machine := by
  unfold Completes at completes
  rcases stepped : s.machine.step s.program with ⟨o, m⟩
  rw [stepped] at completes
  cases completes
  rcases Machine.step_done stepped with ⟨halted, -⟩ | ⟨i, executes⟩
  · exact absurd halted (Bool.eq_false_iff.1 running)
  · refine ⟨i, ?_⟩
    unfold Session.stepped
    rw [stepped]
    exact executes

theorem pausedAtBreakpoint_stepped (going : s.state.paused = false)
    (executes : s.machine.Executes s.program i s.stepped.machine) : s.stepped.PausedAtBreakpoint := by
  have paused := executes.paused
  change s.machine.state.paused = false at going
  rw [going, Bool.false_or] at paused
  exact paused

/-- While it is paused at breakpoints alone, a session that does not stop is neither halted nor paused. -/
theorem PausedAtBreakpoint.going (pauses : s.PausedAtBreakpoint) (ahead : ¬ s.Stops) :
    s.state.halted = false ∧ s.state.paused = false := by
  unfold Stops at ahead
  rw [not_or, Bool.not_eq_true, Bool.not_eq_true, ← pauses] at ahead
  exact ahead

/-- A run until a pause. -/
theorem guides_pause : Guides (fun aim s => aim = .pause ∧ s.PausedAtBreakpoint) Stops where
  heeds := by
    rintro aim s ⟨rfl, -⟩
    rfl
  reached_iff := by
    rintro aim s ⟨rfl, pauses⟩
    unfold Stops
    rw [← pauses]
    simp [Aim.reached]
  keeps := by
    rintro aim s ⟨rfl, pauses⟩ ahead completes
    rcases pauses.going ahead with ⟨running, going⟩
    rcases executes_of_completes completes running with ⟨i, executes⟩
    exact ⟨.pause, rfl, rfl, pausedAtBreakpoint_stepped going executes⟩

end

/-! ### Depth -/

/-- The depth that is still to be left before the routine is left that goes back to the place `r`, the calls
    around it being `c`. -/
inductive Leaving (r : Nat) (c : List Nat) (s : Session) : Nat → Prop where
  | inside (inner : List Nat) : s.state.calls = inner ++ r :: c → Leaving r c s (inner.length + 1)
  | left : s.state.calls = c → s.state.pc = r → Leaving r c s 0

section

variable {s : Session} {i : Instruction} {r depth : Nat} {c : List Nat}

/-- Inside of the routine the calls end in those that lead to it. -/
theorem Leaving.calls_eq_iff (leaving : Leaving r c s depth) :
    s.state.calls = c ↔ depth = 0 := by
  cases leaving with
  | left calls => simp [calls]
  | inside inner calls =>
      rw [calls]
      constructor
      · intro same
        have lengths := congrArg List.length same
        simp only [List.length_append, List.length_cons] at lengths
        omega
      · nofun

/-- The depth that the run counts and the depth of the calls move together. -/
theorem Leaving.stepped (leaving : Leaving r c s depth) (inside : depth ≠ 0)
    (executes : s.machine.Executes s.program i s.stepped.machine) :
    Leaving r c s.stepped (s.depthAfter depth) := by
  cases leaving with
  | left => exact absurd rfl inside
  | inside inner calls =>
      have here : s.program.instruction? s.state.pc = some i := executes.here
      have moves := executes.moves
      -- The depth is counted by the instruction that is about to be carried out, the calls change with it;
      -- so there is one case for each way in which control can move.
      unfold depthAfter
      rw [here]
      generalize control : s.machine.state.control = before at moves
      generalize control' : s.stepped.machine.state.control = after at moves
      have calls' : before.calls = inner ++ r :: c := control ▸ calls
      have after_calls : s.stepped.state.calls = after.calls := congrArg Machine.Control.calls control'
      have after_pc : s.stepped.state.pc = after.pc := congrArg Machine.Control.pc control'
      cases moves with
      | onward call ret =>
          simp only [call, ret, Bool.false_eq_true, if_false]
          exact .inside inner (after_calls.trans calls')
      | @enter l place =>
          refine .inside ((before.pc + 1) :: inner) ?_
          rw [after_calls, calls']
          rfl
      | leave called =>
          rw [called] at calls'
          cases inner with
          | nil =>
              cases calls'
              exact .left after_calls after_pc
          | cons place inner =>
              cases calls'
              exact .inside inner after_calls
      | halt => exact .inside inner (after_calls.trans calls')

/-- A run that leaves a routine. -/
theorem guides_leave (r : Nat) (c : List Nat) :
    Guides (fun aim s => s.PausedAtBreakpoint ∧ ∃ depth, aim = .leave depth ∧ Leaving r c s depth)
      (fun s => s.state.calls = c ∨ s.Stops) where
  heeds := by
    rintro aim s ⟨-, depth, rfl, -⟩
    rfl
  reached_iff := by
    rintro aim s ⟨pauses, depth, rfl, leaving⟩
    rw [leaving.calls_eq_iff]
    unfold Stops
    rw [← pauses]
    simp only [Aim.reached, Bool.or_eq_true, decide_eq_true_eq]
    tauto
  keeps := by
    rintro aim s ⟨pauses, depth, rfl, leaving⟩ ahead completes
    rw [not_or, leaving.calls_eq_iff] at ahead
    rcases pauses.going ahead.2 with ⟨running, going⟩
    rcases executes_of_completes completes running with ⟨i, executes⟩
    refine ⟨_, rfl, pausedAtBreakpoint_stepped going executes, _, rfl, ?_⟩
    exact leaving.stepped ahead.1 executes

end

/-! ### Commands -/

/-- Is the routine left around which the calls are `c`, or is a run cut short before? -/
def LeftOrStops (c : List Nat) (s : Session) : Prop :=
  s.state.calls = c ∨ s.Stops

/-- The command leaves the routine that goes back to the place `r`, the calls around it being `c`: it ends
    after the first step that leads to these calls, to a halt or to a breakpoint. A step that leads to the
    calls leads to the place `r`, and until then the routine is under way. -/
structure Leaves (s : Session) (command : Command) (r : Nat) (c : List Nat) : Prop where
  ends_iff (s' : Session) :
    s.Ends command s' ↔ ∃ n, FirstAfter (LeftOrStops c) s.unpause n ∧ s' = s.unpause.after n
  returns {n : Nat} : FirstAfter (LeftOrStops c) s.unpause n →
    (s.unpause.after n).state.calls = c → (s.unpause.after n).state.pc = r
  within {n : Nat} : FirstAfter (LeftOrStops c) s.unpause n →
    ∀ k, 0 < k → k < n → r :: c <:+ (s.unpause.after k).state.calls

section

variable {s : Session} {r : Nat} {c : List Nat}

/-- A command leaves a routine if the first step leads into the routine, or out of it, and a run that
    leaves the routine follows unless the step ends in a halt or at a breakpoint. -/
theorem leaves_of_entered {command : Command} {aim : Aim}
    (begins : s.begin command = (⟨aim, false⟩, s.unpause)) (free : s.interrupted = false)
    (ahead : aim.reached s.unpause.state = false)
    (entered : s.unpause.Completes →
      s.unpause.stepped.PausedAtBreakpoint ∧ ∃ depth, Leaving r c s.unpause.stepped depth ∧
        ((aim.afterStep s.unpause s.unpause.stepped = none ∧ s.unpause.stepped.Stops) ∨
          aim.afterStep s.unpause s.unpause.stepped = some (.leave depth))) :
    s.Leaves command r c := by
  have guides := guides_leave r c
  -- Whatever ends the run, the depth is tied to the calls after every step up to there.
  have along : ∀ {n}, FirstAfter (LeftOrStops c) s.unpause n →
      ∀ k, 0 < k → k ≤ n → ∃ depth, Leaving r c (s.unpause.after k) depth := by
    intro n firstAfter k positive upTo
    rcases firstAfter_iff.1 firstAfter with ⟨n, rfl, completes, first⟩
    rcases Nat.exists_eq_add_one.2 positive with ⟨k, rfl⟩
    rcases entered completes with ⟨pauses, depth, leaving, -⟩
    rcases guides.related_after ⟨pauses, depth, rfl, leaving⟩ first k (Nat.le_of_succ_le_succ upTo) with
      ⟨-, -, depth', -, leaving'⟩
    exact ⟨depth', leaving'⟩
  constructor
  · intro s'
    unfold Ends launch
    rw [begins]
    apply ends_iff_of_first guides (turn_of_not_reached ahead free) free
    intro completes
    rcases entered completes with ⟨pauses, depth, leaving, ⟨ended, stops⟩ | next⟩
    · exact .inl ⟨ended, .inr stops⟩
    · exact .inr ⟨_, next, pauses, depth, rfl, leaving⟩
  · intro n firstAfter calls
    rcases along firstAfter n firstAfter.positive (Nat.le_refl n) with ⟨depth, leaving⟩
    obtain rfl : depth = 0 := leaving.calls_eq_iff.1 calls
    cases leaving with
    | left _ pc => exact pc
  · intro n firstAfter k positive below
    rcases along firstAfter k positive (Nat.le_of_lt below) with ⟨depth, leaving⟩
    cases leaving with
    | inside inner calls => exact ⟨inner, calls.symm⟩
    | left calls => exact absurd (.inl calls) (firstAfter.earlier k positive below)

/-- Running until a pause ends after the first step that leads to a halt or to a breakpoint. -/
theorem ends_runUntilPause_iff (running : s.state.halted = false) (free : s.interrupted = false)
    (s' : Session) :
    s.Ends .runUntilPause s' ↔ ∃ n, FirstAfter Stops s.unpause n ∧ s' = s.unpause.after n := by
  have ahead : Aim.pause.reached s.unpause.state = false := by
    change (s.state.halted || false) = false
    rw [running]
    rfl
  apply ends_iff_of_first guides_pause (turn_of_not_reached ahead free) free
  intro completes
  rcases executes_of_completes completes running with ⟨i, executes⟩
  exact .inr ⟨.pause, rfl, rfl, pausedAtBreakpoint_stepped rfl executes⟩

/-- Stepping out leaves the routine under way for the place of the latest call. -/
theorem leaves_stepOut (running : s.state.halted = false) (free : s.interrupted = false)
    (calls : s.state.calls = r :: c) : s.Leaves .stepOut r c := by
  have ahead : (Aim.leave 1).reached s.unpause.state = false := by
    change (s.state.halted || false || false) = false
    rw [running]
    rfl
  apply leaves_of_entered rfl free ahead
  intro completes
  rcases executes_of_completes completes running with ⟨i, executes⟩
  have inside : Leaving r c s.unpause 1 := .inside [] calls
  exact ⟨pausedAtBreakpoint_stepped rfl executes, _, inside.stepped Nat.one_ne_zero executes, .inr rfl⟩

/-- Carrying out a call puts the place after it in front of the calls under way. -/
theorem calls_of_atCall {i : Instruction} (call : s.atCall = true)
    (executes : s.machine.Executes s.program i s.stepped.machine) :
    s.stepped.state.calls = (s.state.pc + 1) :: s.state.calls := by
  have here : s.program.instruction? s.state.pc = some i := executes.here
  unfold atCall at call
  rw [here] at call
  have moves := executes.moves
  generalize control' : s.stepped.machine.state.control = after at moves
  refine (congrArg Machine.Control.calls control').trans ?_
  cases moves with
  | enter => rfl
  | onward notCall => exact absurd call (Bool.eq_false_iff.1 notCall)
  | leave | halt => cases call

/-- Stepping over a call leaves the called routine for the place after the call. -/
theorem leaves_stepOver (running : s.state.halted = false) (free : s.interrupted = false)
    (call : s.atCall = true) : s.Leaves .stepOver (s.state.pc + 1) s.state.calls := by
  apply leaves_of_entered (begin_stepOver_of_atCall call) free rfl
  intro completes
  rcases executes_of_completes completes running with ⟨i, executes⟩
  have pauses := pausedAtBreakpoint_stepped rfl executes
  have call' : s.unpause.atCall = true := call
  have enters : s.unpause.stepped.state.calls = (s.state.pc + 1) :: s.state.calls :=
    calls_of_atCall call' executes
  refine ⟨pauses, 1, .inside [] enters, ?_⟩
  -- The call itself may lead to a breakpoint; then the run ends before it counts a depth.
  unfold Aim.afterStep
  by_cases stops : s.unpause.stepped.Stops
  · refine .inl ⟨?_, stops⟩
    unfold Stops at stops
    rw [← pauses, or_comm] at stops
    simp [stops]
  · rcases pauses.going stops with ⟨running', going⟩
    simp [running', going]

end

/-! ### The wish to stop -/

section

variable {s s' : Session} {run run' : Run} {turns : Nat}

/-- A run that goes on after a step heeds the wish to stop. -/
theorem heedsInterrupt_of_afterStep {before after : Session} {aim aim' : Aim}
    (next : aim.afterStep before after = some aim') : aim'.heedsInterrupt = true := by
  cases aim with
  | single => cases next
  | halt | pause | leave =>
      cases next
      rfl
  | callee =>
      simp only [Aim.afterStep] at next
      split at next
      · cases next
      · cases next
        rfl

/-- A run that goes on is not resumed, and it heeds the wish to stop. -/
theorem turn_onward (onward : s.turn run = (.onward run', s')) :
    run'.resumed = false ∧ run'.aim.heedsInterrupt = true := by
  have stepped : s.takeStep run.aim = (.onward run', s') := by
    rcases turn_cases s run with ⟨-, stopped⟩ | ⟨-, -, stopped⟩ | stepped
    · rw [stopped] at onward
      cases onward
    · rw [stopped] at onward
      cases onward
    · exact stepped ▸ onward
  unfold takeStep at stepped
  generalize s.machine.step s.program = r at stepped
  rcases r with ⟨o, m⟩
  cases o with
  | failed f | waiting => cases stepped
  | done =>
      simp only at stepped
      split at stepped
      · next next =>
        cases stepped
        exact ⟨rfl, heedsInterrupt_of_afterStep next⟩
      · cases stepped

/-- A run that has taken a turn and is still under way can be asked to stop. -/
theorem advance_unfinished (unfinished : advance turns run s = (.unfinished run', s'))
    (fresh : run.resumed = false) (heeds : 0 < turns ∨ run.aim.heedsInterrupt = true) :
    run'.resumed = false ∧ run'.aim.heedsInterrupt = true := by
  induction turns generalizing run s with
  | zero =>
      cases unfinished
      exact ⟨fresh, heeds.resolve_left (Nat.lt_irrefl 0)⟩
  | succ turns ih =>
      rw [advance] at unfinished
      rcases turn : s.turn run with ⟨t, s''⟩
      rw [turn] at unfinished
      cases t with
      | finished | failed f | waiting run'' => cases unfinished
      | onward run'' =>
          rcases turn_onward turn with ⟨fresh', heeds'⟩
          exact ih unfinished fresh' (.inr heeds')

/-- A run that is asked to stop ends without a step. The wish is used up unless the aim was reached. -/
theorem advance_interrupt (fresh : run.resumed = false) (heeds : run.aim.heedsInterrupt = true) :
    advance (turns + 1) run s.interrupt =
      (.finished, if run.aim.reached s.state then s.interrupt else s.clearInterrupt) := by
  rcases run with ⟨aim, resumed⟩
  cases fresh
  rw [advance]
  cases reached : aim.reached s.state with
  | true =>
      rw [turn_of_reached (s := s.interrupt) reached]
      rfl
  | false =>
      have stopped : s.interrupt.turn ⟨aim, false⟩ = (.finished, s.clearInterrupt) := by
        have reached' : aim.reached s.interrupt.state = false := reached
        unfold turn
        rw [reached', heeds]
        rfl
      rw [stopped]
      rfl

theorem takeStep_interrupted (s : Session) (aim : Aim) :
    (s.takeStep aim).2.interrupted = s.interrupted := by
  rw [takeStep_snd]
  rfl

/-- A run uses up the wish to stop only where it ends though its aim is not reached. -/
theorem wish_used_up {progress : Progress} (advanced : advance turns run s = (progress, s'))
    (wish : s.interrupted = true) (used : s'.interrupted = false) :
    progress = .finished ∧ ∃ k run', advance k run s = (.unfinished run', s'.interrupt) ∧
      run'.aim.reached s'.state = false := by
  induction turns generalizing run s with
  | zero =>
      cases advanced
      exact absurd wish (Bool.eq_false_iff.1 used)
  | succ turns ih =>
      rw [advance] at advanced
      rcases turn_cases s run with ⟨-, stopped⟩ | ⟨ahead, -, stopped⟩ | stepped
      · rw [stopped] at advanced
        cases advanced
        exact absurd wish (Bool.eq_false_iff.1 used)
      · rw [stopped] at advanced
        cases advanced
        refine ⟨rfl, 0, run, ?_, ahead⟩
        change (Progress.unfinished run, s) = (.unfinished run, { s with interrupted := true })
        rw [← wish]
      · have wish' : (s.turn run).2.interrupted = true := by
          rw [stepped, takeStep_interrupted, wish]
        rcases turn : s.turn run with ⟨t, s''⟩
        rw [turn] at advanced wish'
        cases t with
        | onward run'' =>
            rcases ih advanced wish' with ⟨ended, k, run', unfinished, ahead⟩
            refine ⟨ended, k + 1, run', ?_, ahead⟩
            rw [advance, turn]
            exact unfinished
        | finished | failed f | waiting run'' =>
            cases advanced
            exact absurd wish' (Bool.eq_false_iff.1 used)

end

/-! ### Where commands stop -/

/-- A session that has not halted and is not asked to stop runs until a pause up to the first step that
    leads to a halt or to a breakpoint; stepping out leaves the routine under way, and stepping over a call
    leaves the routine that the call enters. A run that has taken a turn, or that heeds the wish to stop from
    the start, ends before its next step when it is asked to stop. The wish is used up there unless the
    aim was reached, and nowhere else. -/
theorem stops_at_first (s : Session) :
    (s.state.halted = false → s.interrupted = false →
      (∀ s', s.Ends .runUntilPause s' ↔
        ∃ n, FirstAfter Stops s.unpause n ∧ s' = s.unpause.after n) ∧
      (∀ r c, s.state.calls = r :: c → s.Leaves .stepOut r c) ∧
      (s.atCall = true → s.Leaves .stepOver (s.state.pc + 1) s.state.calls)) ∧
    (∀ command turns run s', launch turns s command = (.unfinished run, s') →
      0 < turns ∨ command = .run ∨ command = .runUntilPause ∨ command = .stepOut →
      ∀ more, advance (more + 1) run s'.interrupt =
        (.finished, if run.aim.reached s'.state then s'.interrupt else s'.clearInterrupt)) ∧
    ∀ turns run progress s', advance turns run s = (progress, s') →
      s.interrupted = true → s'.interrupted = false →
      progress = .finished ∧ ∃ k run', advance k run s = (.unfinished run', s'.interrupt) ∧
        run'.aim.reached s'.state = false := by
  refine ⟨?_, ?_, ?_⟩
  · intro running free
    refine ⟨ends_runUntilPause_iff running free, ?_, leaves_stepOver running free⟩
    intro r c calls
    exact leaves_stepOut running free calls
  · intro command turns run s' unfinished loops more
    have fresh : (s.begin command).1.resumed = false := by
      cases command with
      | stepOver =>
          unfold begin
          cases s.atCall <;> rfl
      | _ => rfl
    have heeds : 0 < turns ∨ (s.begin command).1.aim.heedsInterrupt = true := by
      rcases loops with taken | rfl | rfl | rfl
      · exact .inl taken
      · exact .inr rfl
      · exact .inr rfl
      · exact .inr rfl
    rcases advance_unfinished unfinished fresh heeds with ⟨fresh', heeds'⟩
    exact advance_interrupt fresh' heeds'
  · intro turns run progress s' advanced wish used
    exact wish_used_up advanced wish used

/-- A session in a routine that is about to call another one, which pushes a value and returns. -/
def nested : Session :=
  (launch 1 (ofProgram (.ofInstructions
    [.flow (.call ⟨0⟩), .flow .exit,
      .flow (.mark ⟨0⟩), .flow (.call ⟨1⟩), .flow .ret,
      .flow (.mark ⟨1⟩), .stack (.push 7), .flow .ret])) .step).2

/-- Stepping out goes on at the place after the outer call, stepping over at the one after the inner call,
    and a run to the end that is asked to stop after its first step takes no second one. -/
theorem stops_at_first_nested :
    let s := (launch 1 nested .run).2
    (∃ n, FirstAfter Stops nested.unpause n ∧
      (launch 9 nested .runUntilPause).2 = nested.unpause.after n) ∧
    nested.Leaves .stepOut 1 [] ∧ nested.Leaves .stepOver 4 [1] ∧
    advance 5 ⟨.halt, false⟩ s.interrupt = (.finished, s.clearInterrupt) ∧
    ∃ k run, advance k ⟨.halt, false⟩ s.interrupt = (.unfinished run, s.interrupt) ∧
      run.aim.reached s.state = false := by
  intro s
  have running : nested.state.halted = false := by decide +kernel
  have free : nested.interrupted = false := by decide +kernel
  have calls : nested.state.calls = [1] := by decide +kernel
  have pc : nested.state.pc = 3 := by decide +kernel
  have call : nested.atCall = true := by decide +kernel
  have finished : launch 9 nested .runUntilPause =
      (.finished, (launch 9 nested .runUntilPause).2) := Prod.ext (by decide +kernel) rfl
  have unfinished : launch 1 nested .run = (.unfinished ⟨.halt, false⟩, s) :=
    Prod.ext (by decide +kernel) rfl
  have ahead : Aim.halt.reached s.state = false := by decide +kernel
  rcases (stops_at_first nested).1 running free with ⟨pauses, out, beyond⟩
  refine ⟨(pauses _).1 ⟨9, finished⟩, out 1 [] calls, ?_, ?_⟩
  · rw [← calls]
    have left := beyond call
    rw [pc] at left
    exact left
  · have stopped := (stops_at_first nested).2.1 .run 1 _ _ unfinished (.inl Nat.one_pos) 4
    change _ = (Progress.finished, if Aim.halt.reached _ = true then _ else _) at stopped
    rw [ahead] at stopped
    exact ⟨stopped, ((stops_at_first _).2.2 5 _ _ _ stopped rfl rfl).2⟩

end Whitespace.Session

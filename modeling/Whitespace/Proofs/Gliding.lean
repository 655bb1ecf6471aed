/-
Module: Whitespace.Proofs.Gliding
Purpose: Programs that do the same although one of them takes jumps that the other does not need. Control
  glides along jumps without condition, and nothing but its place tells. When the places that it comes to
  in two programs correspond after gliding, then whatever the one program shows the other shows too, with
  the same end, in its own number of steps.
Main exports: Glides, Met, LockstepAfterGliding, Machine.Resembles, Program.Follows, Program.Equivalent,
  Program.equivalent_of_lockstep
-/
import Mathlib.Logic.Relation
import Whitespace.Proofs.Transparency

namespace Whitespace

/-! ### Gliding -/

/-- Control goes from a place to another one by jumps without condition. -/
inductive Glides (P : Program) : Nat → Nat → Prop where
  | here (i : Nat) : Glides P i i
  | jump {i t k : Nat} {l : Label} : P.instruction? i = some (.flow (.jump l)) → P.target? l = some t →
      Glides P t k → Glides P i k

/-- Two places from which control glides to related places. -/
def Met (P Q : Program) (R : Nat → Nat → Prop) (i j : Nat) : Prop :=
  ∃ i' j', Glides P i i' ∧ Glides Q j j' ∧ R i' j'

/-- Programs that do the same at related places, and come to places from which control glides to related
    places again. -/
def LockstepAfterGliding (P Q : Program) (R : Nat → Nat → Prop) : Prop :=
  ∀ i j, R i j →
    (P.instruction? i = none ∧ Q.instruction? j = none) ∨
      ∃ x y, P.instruction? i = some x ∧ Q.instruction? j = some y ∧ Corresponds P Q (Met P Q R) i j x y

section

variable {P Q : Program} {R : Nat → Nat → Prop} {i j k : Nat}

theorem Glides.trans (first : Glides P i j) (second : Glides P j k) : Glides P i k := by
  induction first with
  | here _ => exact second
  | jump here target _ ih => exact .jump here target (ih second)

theorem Met.of_related (h : R i j) : Met P Q R i j := ⟨i, j, .here i, .here j, h⟩

/-- Gliding first does not keep places from meeting. -/
theorem Met.of_glides {i' j' : Nat} (left : Glides P i i') (right : Glides Q j j') (h : Met P Q R i' j') :
    Met P Q R i j := by
  obtain ⟨i'', j'', left', right', related⟩ := h
  exact ⟨i'', j'', left.trans left', right.trans right', related⟩

theorem Met.symm (h : Met P Q R i j) : Met Q P (fun j i => R i j) j i := by
  obtain ⟨i', j', left, right, related⟩ := h
  exact ⟨j', i', right, left, related⟩

theorem Corresponds.symm {R' : Nat → Nat → Prop} {x y : Instruction} (h : Corresponds P Q R i j x y)
    (back : ∀ i j, R i j → R' j i) : Corresponds Q P R' j i y x := by
  cases h with
  | same unlabelled next => exact .same unlabelled fun ret => back _ _ (next ret)
  | branch target target' there next =>
      exact .branch target' target (fun mark => back _ _ (there mark)) fun jump => back _ _ (next jump)

theorem LockstepAfterGliding.symm (h : LockstepAfterGliding P Q R) :
    LockstepAfterGliding Q P fun j i => R i j := by
  intro j i related
  rcases h i j related with ⟨past, past'⟩ | ⟨x, y, here, here', corresponds⟩
  · exact .inl ⟨past', past⟩
  · exact .inr ⟨y, x, here', here, corresponds.symm fun _ _ => Met.symm⟩

end

/-! ### Machines -/

namespace Machine

def withSteps (m : Machine) (steps : Nat) : Machine :=
  { m with state := { m.state with steps } }

/-- The effect with another count of steps in its machine. -/
def Effect.withSteps (steps : Nat) : Effect → Effect
  | .completed m => .completed (m.withSteps steps)
  | .faulted f m => .faulted f (m.withSteps steps)
  | .waiting m => .waiting (m.withSteps steps)

/-- Machines that differ in nothing but their places, which are related, their pause and the count of
    their steps. -/
structure Beside (R : Nat → Nat → Prop) (m m' : Machine) : Prop where
  stack : m.state.stack = m'.state.stack
  heap : m.state.heap = m'.state.heap
  calls : List.Forall₂ R m.state.calls m'.state.calls
  pc : R m.state.pc m'.state.pc
  halted : m.state.halted = m'.state.halted
  input : m.input = m'.input
  output : m.output = m'.output

/-- Machines that an observer cannot tell apart: only their places, their pause and the count of their
    steps may differ. -/
structure Resembles (m m' : Machine) : Prop where
  stack : m.state.stack = m'.state.stack
  heap : m.state.heap = m'.state.heap
  depth : m.state.calls.length = m'.state.calls.length
  halted : m.state.halted = m'.state.halted
  input : m.input = m'.input
  output : m.output = m'.output

section

variable {P Q : Program} {R : Nat → Nat → Prop} {m m' : Machine} {x y : Instruction}

/-- An instruction takes no notice of the count of steps. -/
theorem perform_withSteps (steps : Nat) (i : Instruction) :
    (m.withSteps steps).perform P i = (m.perform P i).withSteps steps := by
  cases flow : i.isFlow with
  | false =>
      obtain ⟨change, spec⟩ := perform_eq_apply flow m.state.stack m.state.heap m.input m.output
      rw [spec P m rfl rfl rfl rfl, spec P (m.withSteps steps) rfl rfl rfl rfl]
      cases change <;> rfl
  | true =>
      cases i with
      | flow command =>
          have unobserved := runFlow_unobserved P m.state command m.state.paused steps
          rw [perform_flow, perform_flow]
          change (m.withSteps steps).allOrNothing
              (runFlow P { m.state with paused := m.state.paused, steps } command) = _
          rw [unobserved]
          cases ran : runFlow P m.state command with
          | error f => rfl
          | ok s =>
              obtain ⟨-, -, paused⟩ := runFlow_eq_ok ran
              rw [← paused]
              rfl
      | _ => cases flow

theorem Beside.agree (h : m.Beside R m') : m.Agree R (m'.withSteps m.state.steps) :=
  ⟨h.stack, h.heap, h.calls, h.pc, h.halted, rfl, h.input, h.output⟩

theorem Agree.beside {steps : Nat} (h : m.Agree R (m'.withSteps steps)) : m.Beside R m' :=
  ⟨h.stack, h.heap, h.calls, h.pc, h.halted, h.input, h.output⟩

theorem Beside.resembles (h : m.Beside R m') : m.Resembles m' :=
  { h with depth := h.calls.length_eq }

/-- Corresponding instructions make the same step. -/
theorem step_beside (beside : m.Beside R m') (here : P.instruction? m.state.pc = some x)
    (here' : Q.instruction? m'.state.pc = some y)
    (corresponds : Corresponds P Q R m.state.pc m'.state.pc x y) :
    (m.step P).1.Agree (m'.step Q).1 ∧ (m.step P).2.Beside R (m'.step Q).2 := by
  unfold step
  rw [← beside.halted]
  cases m.state.halted with
  | true => exact ⟨.done, beside⟩
  | false =>
      have effects := perform_agree beside.agree corresponds
      rw [perform_withSteps] at effects
      simp only [Bool.false_eq_true, if_false, here, here']
      generalize m.perform P x = effect at effects ⊢
      cases effect' : m'.perform Q y with
      | completed m₂ =>
          rw [effect'] at effects
          cases effects with
          | completed agree => exact ⟨.done, { agree.beside with }⟩
      | faulted f m₂ =>
          rw [effect'] at effects
          cases effects with
          | faulted f agree => exact ⟨.failed rfl (congrArg some corresponds.anonymous_eq), agree.beside⟩
      | waiting m₂ =>
          rw [effect'] at effects
          cases effects with
          | waiting agree => exact ⟨.waiting, agree.beside⟩

/-- A jump moves control; the count of steps and the pause apart, it does nothing else. -/
theorem step_jump {l : Label} {t : Nat} (running : m.state.halted = false)
    (here : P.instruction? m.state.pc = some (.flow (.jump l))) (target : P.target? l = some t) :
    ∃ steps paused, m.step P = (.done, { m with state := { m.state with pc := t, steps, paused } }) := by
  have resolved : resolve P l = .ok t := by rw [resolve, target]
  rw [step, if_neg (by simp [running])]
  simp only [here, perform_flow, runFlow, resolved, Except.map, allOrNothing]
  exact ⟨_, _, rfl⟩

/-- A machine that has halted stays as it is. -/
theorem step_of_halted (halted : m.state.halted = true) (P : Program) : m.step P = (.done, m) := by
  rw [step, halted, if_pos rfl]

theorem after_succ (P : Program) (n : Nat) (m : Machine) :
    m.after P (n + 1) = (m.step P).2.after P n := rfl

theorem after_succ' (P : Program) (n : Nat) (m : Machine) :
    m.after P (n + 1) = ((m.after P n).step P).2 := by
  unfold after
  rw [Function.iterate_succ_apply']

theorem after_add (P : Program) (n k : Nat) (m : Machine) :
    m.after P (n + k) = (m.after P n).after P k := by
  unfold after
  rw [Nat.add_comm, Function.iterate_add_apply]

theorem after_of_halted (halted : m.state.halted = true) (P : Program) (n : Nat) : m.after P n = m := by
  induction n with
  | zero => rfl
  | succ n ih => rw [after_succ, step_of_halted halted, ih]

/-- A machine comes to the places that control glides to. -/
theorem exists_after_glides {j : Nat} (running : m.state.halted = false)
    (glides : Glides P m.state.pc j) :
    ∃ k steps paused, m.after P k = { m with state := { m.state with pc := j, steps, paused } } := by
  generalize start : m.state.pc = i at glides
  induction glides generalizing m with
  | here i =>
      subst start
      exact ⟨0, m.state.steps, m.state.paused, rfl⟩
  | jump here target _ ih =>
      rw [← start] at here
      obtain ⟨steps, paused, stepped⟩ := step_jump running here target
      have moved : (m.step P).2.state.halted = false := by rw [stepped]; exact running
      obtain ⟨k, steps', paused', glided⟩ := ih moved (by rw [stepped])
      refine ⟨k + 1, steps', paused', ?_⟩
      rw [after_succ, glided, stepped]

/-- While the one machine makes a step, the other can glide until it makes the same step; unless the one
    is gliding itself. -/
theorem exists_step_met (lockstep : LockstepAfterGliding P Q R) (beside : m.Beside (Met P Q R) m') :
    ∃ k, m.Beside (Met P Q R) (m'.after Q k) ∧
      ((m.step P).1 = .done ∧ (m.step P).2.Beside (Met P Q R) (m'.after Q k) ∨
        (m.step P).1.Agree ((m'.after Q k).step Q).1 ∧
          (m.step P).2.Beside (Met P Q R) ((m'.after Q k).step Q).2) := by
  cases running : m.state.halted with
  | true =>
      refine ⟨0, beside, .inl ?_⟩
      rw [step_of_halted running]
      exact ⟨rfl, beside⟩
  | false =>
      obtain ⟨i, j, left, right, related⟩ := beside.pc
      cases left with
      | jump here target onward =>
          obtain ⟨steps, paused, stepped⟩ := step_jump running here target
          refine ⟨0, beside, .inl ?_⟩
          rw [stepped]
          exact ⟨rfl, { beside with pc := ⟨i, j, onward, right, related⟩ }⟩
      | here =>
          have running' : m'.state.halted = false := beside.halted ▸ running
          obtain ⟨k, steps, paused, glided⟩ := exists_after_glides running' right
          have glided_beside : m.Beside (Met P Q R) (m'.after Q k) := by
            rw [glided]
            exact { beside with pc := .of_related related }
          have place : (m'.after Q k).state.pc = j := by rw [glided]
          refine ⟨k, glided_beside, .inr ?_⟩
          rcases lockstep _ _ related with ⟨past, past'⟩ | ⟨x, y, here, here', corresponds⟩
          · rw [← place] at past'
            have halted' : (m'.after Q k).state.halted = false := glided_beside.halted ▸ running
            simp only [step, running, halted', Bool.false_eq_true, if_false, past, past']
            exact ⟨.failed rfl rfl, glided_beside⟩
          · rw [← place] at here' corresponds
            exact step_beside glided_beside here here' corresponds

/-- However many steps the one machine makes, the other comes to stand beside it. -/
theorem exists_after_met (lockstep : LockstepAfterGliding P Q R) (beside : m.Beside (Met P Q R) m')
    (n : Nat) : ∃ k, (m.after P n).Beside (Met P Q R) (m'.after Q k) := by
  induction n with
  | zero => exact ⟨0, beside⟩
  | succ n ih =>
      obtain ⟨k, before⟩ := ih
      obtain ⟨d, -, stepped⟩ := exists_step_met lockstep before
      rw [← after_add] at stepped
      rw [after_succ']
      rcases stepped with ⟨-, glided⟩ | ⟨-, both⟩
      · exact ⟨k + d, glided⟩
      · exact ⟨k + d + 1, by rwa [after_succ']⟩

theorem Resembles.trans {m₁ m₂ m₃ : Machine} (h : m₁.Resembles m₂) (h' : m₂.Resembles m₃) :
    m₁.Resembles m₃ :=
  ⟨h.stack.trans h'.stack, h.heap.trans h'.heap, h.depth.trans h'.depth, h.halted.trans h'.halted,
    h.input.trans h'.input, h.output.trans h'.output⟩

theorem Outcome.Agree.trans {o₁ o₂ o₃ : Outcome} (h : o₁.Agree o₂) (h' : o₂.Agree o₃) : o₁.Agree o₃ := by
  cases h with
  | done => exact h'
  | waiting => exact h'
  | failed fault instruction =>
      cases h' with
      | failed fault' instruction' => exact .failed (fault.trans fault') (instruction.trans instruction')

theorem Outcome.Agree.eq_done {o : Outcome} (h : o.Agree .done) : o = .done := by
  cases h
  rfl

end

end Machine

/-! ### Programs -/

/-- Whatever a run of the one program comes to, a run of the other on the same input comes to as well: the
    same stack, heap and output and as much of the input read, halted or not, with the same failure or
    wait if there is one. -/
def Program.Follows (P Q : Program) : Prop :=
  ∀ (port : Input.Port) (n : Nat), ∃ k,
    let m := Machine.after P n { input := port }
    let m' := Machine.after Q k { input := port }
    m.Resembles m' ∧ ((m.step P).1 = .done ∨ (m.step P).1.Agree (m'.step Q).1)

/-- Programs whose runs come to the same, each in its own number of steps. -/
def Program.Equivalent (P Q : Program) : Prop := P.Follows Q ∧ Q.Follows P

section

variable {P Q S : Program} {R : Nat → Nat → Prop}

/-- A program that follows a second one follows whatever that one follows. -/
theorem Program.Follows.trans (h : P.Follows Q) (h' : Q.Follows S) : P.Follows S := by
  intro port n
  obtain ⟨k, alike, outcome⟩ := h port n
  obtain ⟨l, alike', outcome'⟩ := h' port k
  refine ⟨l, alike.trans alike', ?_⟩
  rcases outcome with done | agree
  · exact .inl done
  rcases outcome' with done' | agree'
  · rw [done'] at agree
    exact .inl agree.eq_done
  · exact .inr (agree.trans agree')

theorem Program.Equivalent.refl (P : Program) : P.Equivalent P := by
  have same : ∀ m : Machine, m.Resembles m := fun m => ⟨rfl, rfl, rfl, rfl, rfl, rfl⟩
  have agree : ∀ o : Machine.Outcome, o.Agree o := by
    intro o
    cases o with
    | done => exact .done
    | waiting => exact .waiting
    | failed f => exact .failed rfl rfl
  have follows : P.Follows P := fun port n => ⟨n, same _, .inr (agree _)⟩
  exact ⟨follows, follows⟩

theorem Program.Equivalent.trans (h : P.Equivalent Q) (h' : Q.Equivalent S) : P.Equivalent S :=
  ⟨h.1.trans h'.1, h'.2.trans h.2⟩

/-- Programs in lockstep after gliding that start at related places follow each other. -/
theorem Program.follows_of_lockstep (lockstep : LockstepAfterGliding P Q R) (start : Met P Q R 0 0) :
    P.Follows Q := by
  intro port n
  have fresh : Machine.Beside (Met P Q R) { input := port } { input := port } :=
    ⟨rfl, rfl, .nil, start, rfl, rfl, rfl⟩
  obtain ⟨k, beside⟩ := Machine.exists_after_met lockstep fresh n
  obtain ⟨d, glided, stepped⟩ := Machine.exists_step_met lockstep beside
  rw [← Machine.after_add] at glided stepped
  exact ⟨k + d, glided.resembles, stepped.imp And.left And.left⟩

/-- Programs in lockstep after gliding come to the same. -/
theorem Program.equivalent_of_lockstep (lockstep : LockstepAfterGliding P Q R) (start : Met P Q R 0 0) :
    P.Equivalent Q :=
  ⟨follows_of_lockstep lockstep start, follows_of_lockstep lockstep.symm start.symm⟩

end

end Whitespace

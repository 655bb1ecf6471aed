/-
Module: Whitespace.Proofs.Lockstep
Purpose: Two programs that do the same at corresponding places. Which places correspond is a relation
  between the places of both; when the instructions at related places are the same up to the numbers of
  their labels, and lead to related places again, the machines that run the programs can be told apart
  only by their places. They wait together and they fail together, with the same fault.
Main exports: Instruction.anonymous, Corresponds, Lockstep, Corresponds.of_layout, Machine.Agree,
  Machine.Outcome.Agree, Machine.after, step_agree, after_agree
-/
import Mathlib.Data.List.Forall2
import Mathlib.Logic.Function.Iterate
import Whitespace.Proofs.Layout
import Whitespace.Proofs.PlainEffects

namespace Whitespace

open Assembly (Branch)

/-- The instruction without the number of its label. -/
def Instruction.anonymous : Instruction → Instruction
  | .flow (.mark _) => .flow (.mark ⟨0⟩)
  | .flow (.call _) => .flow (.call ⟨0⟩)
  | .flow (.jump _) => .flow (.jump ⟨0⟩)
  | .flow (.jumpZero _) => .flow (.jumpZero ⟨0⟩)
  | .flow (.jumpNegative _) => .flow (.jumpNegative ⟨0⟩)
  | i => i

/-! ### Programs -/

/-- The instructions at two places are the same up to the numbers of labels that both programs know, and
    all places that control can go to from there are related. -/
inductive Corresponds (P Q : Program) (R : Nat → Nat → Prop) (i j : Nat) :
    Instruction → Instruction → Prop where
  | same {x : Instruction} : x.label? = none → (x ≠ .flow .ret → R (i + 1) (j + 1)) →
      Corresponds P Q R i j x x
  | branch {b : Branch} {l l' : Label} {t t' : Nat} : P.target? l = some t → Q.target? l' = some t' →
      (b ≠ .mark → R t t') → (b ≠ .jump → R (i + 1) (j + 1)) →
      Corresponds P Q R i j (.flow (b.command l)) (.flow (b.command l'))

/-- Programs that do the same at related places. -/
def Lockstep (P Q : Program) (R : Nat → Nat → Prop) : Prop :=
  ∀ i j, R i j →
    (P.instruction? i = none ∧ Q.instruction? j = none) ∨
      ∃ x y, P.instruction? i = some x ∧ Q.instruction? j = some y ∧ Corresponds P Q R i j x y

theorem Corresponds.anonymous_eq {P Q : Program} {R : Nat → Nat → Prop} {i j : Nat} {x y : Instruction}
    (h : Corresponds P Q R i j x y) : x.anonymous = y.anonymous := by
  cases h with
  | same => rfl
  | @branch b => cases b <;> rfl

section

open Assembly

variable {P Q : Program} {R : Nat → Nat → Prop}

/-- The instructions of one line correspond wherever it stands in two programs, if the places that control
    goes to from there are related. -/
theorem Corresponds.of_layout {p q : LineProgram} {address address' : Nat → Reference → Label}
    (layout : Layout P p address) (layout' : Layout Q q address') {k k' d : Nat} {s : Statement}
    (wf : s.WellFormed) (line : p[k]? = some (some s)) (line' : q[k']? = some (some s)) {x : Symbolic}
    (here : s.symbolic[d]? = some x)
    (next : x ≠ .fixed (.flow .ret) → (∀ r, x ≠ .branch .jump r) →
      R (p.place k + d + 1) (q.place k' + d + 1))
    (referents : ∀ b r, x = .branch b r → ∃ t t', p.referent? k r = some t ∧
      q.referent? k' r = some t' ∧ (b ≠ .mark → R (p.place t) (q.place t'))) :
    Corresponds P Q R (p.place k + d) (q.place k' + d) (x.numbered (address k))
      (x.numbered (address' k')) := by
  have member := List.mem_of_getElem? here
  cases x with
  | fixed i =>
      refine .same (Statement.label?_of_fixed wf member) fun ret => next ?_ nofun
      intro same
      exact ret (Symbolic.fixed.inj same)
  | branch b r =>
      obtain ⟨t, t', referent, referent', there⟩ := referents b r rfl
      refine .branch (layout.target line member referent) (layout'.target line' member referent') there
        fun jump => next nofun ?_
      intro r' same
      cases same
      exact jump rfl

/-- The same instructions without labels correspond behind two codes, if the places after them do. -/
theorem Corresponds.of_suffix {code code' suffix : List Instruction}
    (unlabelled : ∀ i ∈ suffix, i.label? = none) {d : Nat}
    (next : R (code.length + (d + 1)) (code'.length + (d + 1))) :
    ((Program.ofInstructions (code ++ suffix)).instruction? (code.length + d) = none ∧
        (Program.ofInstructions (code' ++ suffix)).instruction? (code'.length + d) = none) ∨
      ∃ x y, (Program.ofInstructions (code ++ suffix)).instruction? (code.length + d) = some x ∧
        (Program.ofInstructions (code' ++ suffix)).instruction? (code'.length + d) = some y ∧
        Corresponds P Q R (code.length + d) (code'.length + d) x y := by
  rw [Program.instruction?_ofInstructions, Program.instruction?_ofInstructions,
    List.getElem?_append_right (Nat.le_add_right _ _),
    List.getElem?_append_right (Nat.le_add_right _ _), Nat.add_sub_cancel_left,
    Nat.add_sub_cancel_left]
  cases here : suffix[d]? with
  | none => exact .inl ⟨rfl, rfl⟩
  | some x => exact .inr ⟨x, x, rfl, rfl, .same (unlabelled x (List.mem_of_getElem? here)) fun _ => next⟩

end

/-! ### Machines -/

namespace Machine

/-- Machines that differ in nothing but their places, which are related, and their pause. -/
structure Agree (R : Nat → Nat → Prop) (m m' : Machine) : Prop where
  stack : m.state.stack = m'.state.stack
  heap : m.state.heap = m'.state.heap
  calls : List.Forall₂ R m.state.calls m'.state.calls
  pc : R m.state.pc m'.state.pc
  halted : m.state.halted = m'.state.halted
  steps : m.state.steps = m'.state.steps
  input : m.input = m'.input
  output : m.output = m'.output

/-- Effects of one kind, on machines that agree. -/
inductive Effect.Agree (R : Nat → Nat → Prop) : Effect → Effect → Prop where
  | completed {m m' : Machine} : m.Agree R m' → Agree R (.completed m) (.completed m')
  | faulted {m m' : Machine} (f : Fault) : m.Agree R m' → Agree R (.faulted f m) (.faulted f m')
  | waiting {m m' : Machine} : m.Agree R m' → Agree R (.waiting m) (.waiting m')

/-- Outcomes of one kind. Failures have the same fault, at the same instruction but for its label. -/
inductive Outcome.Agree : Outcome → Outcome → Prop where
  | done : Agree .done .done
  | failed {f f' : Failure} : f.fault = f'.fault →
      f.instruction?.map Instruction.anonymous = f'.instruction?.map Instruction.anonymous →
      Agree (.failed f) (.failed f')
  | waiting : Agree .waiting .waiting

section

variable {P Q : Program} {R : Nat → Nat → Prop} {m m' : Machine} {x y : Instruction}

/-- A change that does not touch the place keeps two machines in agreement, whether it is made or refused. -/
theorem apply_agree (agree : m.Agree R m') (next : R (m.state.pc + 1) (m'.state.pc + 1))
    (change : Change) : (change.apply m).Agree R (change.apply m') := by
  cases change with
  | made stack heap input output =>
      exact .completed ⟨rfl, rfl, agree.calls, next, agree.halted, agree.steps, rfl, rfl⟩
  | refused f input => exact .faulted f { agree with input := rfl }
  | stalled input => exact .waiting { agree with input := rfl }

/-- Corresponding flow commands send agreeing machines to related places. -/
theorem runFlow_agree (agree : m.Agree R m') {b : Branch} {l l' : Label} {t t' : Nat}
    (target : P.target? l = some t) (target' : Q.target? l' = some t') (there : b ≠ .mark → R t t')
    (next : b ≠ .jump → R (m.state.pc + 1) (m'.state.pc + 1)) :
    (m.allOrNothing (runFlow P m.state (b.command l))).Agree R
      (m'.allOrNothing (runFlow Q m'.state (b.command l'))) := by
  have resolved : resolve P l = .ok t := by rw [resolve, target]
  have resolved' : resolve Q l' = .ok t' := by rw [resolve, target']
  cases b with
  | mark =>
      simp only [Branch.command, runFlow, resolved, resolved', Except.map, allOrNothing]
      exact .completed { agree with pc := next (by decide) }
  | call =>
      simp only [Branch.command, runFlow, resolved, resolved', Except.map, allOrNothing]
      exact .completed
        { agree with pc := there (by decide), calls := .cons (next (by decide)) agree.calls }
  | jump =>
      simp only [Branch.command, runFlow, resolved, resolved', Except.map, allOrNothing]
      exact .completed { agree with pc := there (by decide) }
  | jumpZero | jumpNegative =>
      simp only [Branch.command, runFlow, resolved, resolved', bind, Except.bind, State.branch,
        ← agree.stack]
      cases m.state.stack.pop? with
      | none => exact .faulted _ agree
      | some popped =>
          obtain ⟨a, rest⟩ := popped
          simp only
          split
          · exact .completed { agree with stack := rfl, pc := there (by decide) }
          · exact .completed { agree with stack := rfl, pc := next (by decide) }

/-- Corresponding instructions have the same effect. -/
theorem perform_agree (agree : m.Agree R m')
    (corresponds : Corresponds P Q R m.state.pc m'.state.pc x y) :
    (m.perform P x).Agree R (m'.perform Q y) := by
  cases corresponds with
  | branch target target' there next =>
      rw [perform_flow, perform_flow]
      exact runFlow_agree agree target target' there next
  | same unlabelled next =>
      cases flow : x.isFlow with
      | false =>
          obtain ⟨change, spec⟩ := perform_eq_apply flow m.state.stack m.state.heap m.input m.output
          rw [spec P m rfl rfl rfl rfl,
            spec Q m' agree.stack.symm agree.heap.symm agree.input.symm agree.output.symm]
          apply apply_agree agree
          apply next
          rintro rfl
          cases flow
      | true =>
          cases x with
          | flow command =>
              cases command with
              | ret =>
                  have calls := agree.calls
                  rw [perform_flow, perform_flow, runFlow, runFlow]
                  cases called : m.state.calls with
                  | nil =>
                      rw [called] at calls
                      rw [List.forall₂_nil_left_iff.1 calls]
                      exact .faulted _ agree
                  | cons place rest =>
                      rw [called] at calls
                      obtain ⟨place', rest', here, others, called'⟩ :=
                        List.forall₂_cons_left_iff.1 calls
                      rw [called']
                      exact .completed { agree with calls := others, pc := here }
              | exit => exact .completed { agree with halted := rfl }
              | breakpoint => exact .completed { agree with pc := next (by decide) }
              | _ => cases unlabelled
          | _ => cases flow

/-- Machines in lockstep take the same step. -/
theorem step_agree (lockstep : Lockstep P Q R) (agree : m.Agree R m') :
    (m.step P).1.Agree (m'.step Q).1 ∧ (m.step P).2.Agree R (m'.step Q).2 := by
  unfold step
  rw [← agree.halted]
  cases m.state.halted with
  | true => exact ⟨.done, agree⟩
  | false =>
      simp only [Bool.false_eq_true, if_false]
      rcases lockstep _ _ agree.pc with ⟨past, past'⟩ | ⟨x, y, here, here', corresponds⟩
      · rw [past, past']
        exact ⟨.failed rfl rfl, agree⟩
      · rw [here, here']
        simp only
        have effects := perform_agree agree corresponds
        generalize m.perform P x = effect, m'.perform Q y = effect' at effects ⊢
        cases effects with
        | completed agree => exact ⟨.done, { agree with steps := congrArg (· + 1) agree.steps }⟩
        | faulted f agree =>
            exact ⟨.failed rfl (congrArg some corresponds.anonymous_eq), agree⟩
        | waiting agree => exact ⟨.waiting, agree⟩

/-- The machine after as many steps as given, whatever their outcomes. -/
def after (program : Program) (n : Nat) (m : Machine) : Machine :=
  (fun m => (m.step program).2)^[n] m

/-- Machines in lockstep agree after any number of steps. -/
theorem after_agree (lockstep : Lockstep P Q R) (agree : m.Agree R m') (n : Nat) :
    (m.after P n).Agree R (m'.after Q n) := by
  induction n generalizing m m' with
  | zero => exact agree
  | succ n ih => exact ih (step_agree lockstep agree).2

end

end Machine

end Whitespace

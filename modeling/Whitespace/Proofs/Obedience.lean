/-
Module: Whitespace.Proofs.Obedience
Purpose: What single instructions and codes do to a configuration. The same instruction does the same
  thing wherever its program and its line put it, so a configuration can be moved to other places; and
  a code that stands in a program is carried out one instruction after another.
Main exports: Configuration.relocate, Configuration.obey_elsewhere, Configuration.obey_relocate,
  Configuration.Reaches, CodeAt, Configuration.Reaches.obey
-/
import Mathlib.Logic.Relation
import Whitespace.Proofs.Layout
import Whitespace.Proofs.PlainEffects

namespace Whitespace

open Machine (Change)

namespace Configuration

/-! ### The stack -/

@[simp] theorem pop?_push (c : Configuration) (a : Int) : (c.push a).pop? = some (a, c) := by
  simp [pop?, push]

/-- What can be popped was pushed. -/
theorem pop?_eq_some_iff {c d : Configuration} {a : Int} : c.pop? = some (a, d) ↔ c = d.push a := by
  constructor
  · intro h
    unfold pop? at h
    rw [Option.map_eq_some_iff] at h
    obtain ⟨⟨b, rest⟩, popped, same⟩ := h
    cases same
    rw [Machine.Stack.pop?_eq_some_iff] at popped
    cases c
    cases popped
    rfl
  · rintro rfl
    exact pop?_push d a

@[simp] theorem push_place (c : Configuration) (a : Int) : (c.push a).place = c.place := rfl

@[simp] theorem push_halted (c : Configuration) (a : Int) : (c.push a).halted = c.halted := rfl

@[simp] theorem next_place (c : Configuration) : c.next.place = c.place + 1 := rfl

@[simp] theorem next_halted (c : Configuration) : c.next.halted = c.halted := rfl

@[simp] theorem goto_place (c : Configuration) (place : Nat) : (c.goto place).place = place := rfl

/-! ### Instructions that do not direct control -/

section

variable {program : Program} {c d : Configuration} {i : Instruction}

/-- A completed change of a configuration. -/
def change? (c : Configuration) : Change → Option Configuration
  | .made stack heap input output => some { c with stack, heap, input, output }.next
  | .refused _ _ | .stalled _ => none

/-- What an instruction that is no flow command does depends on the stack, the heap, the input and the output
    alone, not on the program or the control. -/
theorem exists_change (h : i.isFlow = false) (c : Configuration) :
    ∃ change : Change, ∀ (program : Program) (d : Configuration), d.stack = c.stack →
      d.heap = c.heap → d.input = c.input → d.output = c.output →
      d.obey program i = d.change? change := by
  obtain ⟨change, spec⟩ := Machine.perform_eq_apply h c.stack c.heap c.input c.output
  refine ⟨change, fun program d stack heap input output => ?_⟩
  have performed := spec program d.machine stack heap input output
  rw [obey, performed]
  cases change <;> rfl

/-- An instruction that does not direct control does the same at any other place. -/
theorem obey_elsewhere (program' : Program) (h : i.isFlow = false)
    (obeyed : c.obey program i = some d) (calls : List Nat) (place : Nat) :
    { c with calls, place }.obey program' i = some { d with calls, place := place + 1 } ∧
      d.calls = c.calls ∧ d.place = c.place + 1 := by
  obtain ⟨change, spec⟩ := exists_change h c
  rw [spec program c rfl rfl rfl rfl] at obeyed
  rw [spec program' { c with calls, place } rfl rfl rfl rfl]
  cases change with
  | made stack heap input output =>
      cases obeyed
      exact ⟨rfl, rfl, rfl⟩
  | refused f input => cases obeyed
  | stalled input => cases obeyed

@[simp] theorem obey_pushOf (program : Program) (c : Configuration) (n : Int) :
    c.obey program (Assembly.pushOf n) = some (c.push n).next := rfl

theorem obey_duplicate (program : Program) (c : Configuration) (a : Int) :
    (c.push a).obey program (.stack .duplicate) = some ((c.push a).push a).next := by
  simp [obey, machine, push, Machine.perform_stack, Machine.runStack, Machine.allOrNothing, Except.map]
  rfl

theorem obey_swap (program : Program) (c : Configuration) (a b : Int) :
    ((c.push a).push b).obey program (.stack .swap) = some ((c.push b).push a).next := by
  simp [obey, machine, push, Machine.perform_stack, Machine.runStack, Machine.allOrNothing, Except.map]
  rfl

theorem obey_discard (program : Program) (c : Configuration) (a : Int) :
    (c.push a).obey program (.stack .discard) = some c.next := by
  simp [obey, machine, push, Machine.perform_stack, Machine.runStack, Machine.allOrNothing, Except.map]
  rfl

/-- An arithmetic command with two operands replaces them with the result. -/
theorem obey_arithmetic (program : Program) (c : Configuration) (command : ArithmeticCommand)
    {a b r : Int} (binary : command ≠ .complement) (h : Machine.compute a b command = .ok r) :
    ((c.push a).push b).obey program (.arithmetic command) = some (c.push r).next := by
  cases command with
  | complement => exact absurd rfl binary
  | _ =>
      simp [obey, machine, push, Machine.perform_arithmetic, Machine.runArithmetic, h, Machine.allOrNothing, Except.map]
      rfl

theorem obey_store (program : Program) (c : Configuration) {place value : Int} {address : Nat}
    (h : Machine.checkedAddress place = .ok address) :
    ((c.push place).push value).obey program (.heap .store) =
      some { c with heap := c.heap.insert address value }.next := by
  simp [obey, machine, push, Machine.perform_heap, Machine.runHeap, h, Machine.allOrNothing, Except.map]
  rfl

theorem obey_retrieve (program : Program) (c : Configuration) {place value : Int} {address : Nat}
    (h : Machine.checkedAddress place = .ok address) (cell : c.heap[address]? = some value) :
    (c.push place).obey program (.heap .retrieve) = some (c.push value).next := by
  simp [obey, machine, push, Machine.perform_heap, Machine.runHeap, h, cell, Machine.allOrNothing, Except.map]
  rfl

/-! ### Instructions that direct control -/

/-- A return goes back to the place of the latest call. -/
theorem obey_ret (program : Program) (c : Configuration) :
    c.obey program (.flow .ret) =
      match c.calls with
      | place :: rest => some { c with calls := rest, place }
      | [] => none := by
  unfold obey machine
  rw [Machine.perform_flow, Machine.runFlow]
  cases c.calls <;> rfl

section

variable {l : Label} {t : Nat} (resolved : program.target? l = some t)

include resolved

theorem obey_mark : c.obey program (.flow (.mark l)) = some c.next := by
  simp [obey, Machine.perform_flow, Machine.runFlow, Machine.resolve, resolved, Machine.allOrNothing, Except.map]
  rfl

theorem obey_call :
    c.obey program (.flow (.call l)) =
      some { c with calls := (c.place + 1) :: c.calls, place := t } := by
  simp [obey, Machine.perform_flow, Machine.runFlow, Machine.resolve, resolved, Machine.allOrNothing, Except.map]
  rfl

theorem obey_jump : c.obey program (.flow (.jump l)) = some (c.goto t) := by
  simp [obey, Machine.perform_flow, Machine.runFlow, Machine.resolve, resolved, Machine.allOrNothing, Except.map]
  rfl

theorem obey_jumpZero (v : Int) :
    (c.push v).obey program (.flow (.jumpZero l)) = some (if v = 0 then c.goto t else c.next) := by
  by_cases h : v = 0
  all_goals
    simp [obey, machine, push, Machine.perform_flow, Machine.runFlow, Machine.resolve, resolved,
      Machine.allOrNothing, Machine.State.branch, bind, Except.bind, h]
    rfl

/-- A jump on a negative number takes the number and jumps if it is negative. -/
theorem obey_jumpNegative (v : Int) :
    (c.push v).obey program (.flow (.jumpNegative l)) =
      some (if v < 0 then c.goto t else c.next) := by
  by_cases h : v < 0
  all_goals
    simp [obey, machine, push, Machine.perform_flow, Machine.runFlow, Machine.resolve, resolved,
      Machine.allOrNothing, Machine.State.branch, bind, Except.bind, h]
    rfl

end

end

/-! ### Other places -/

def relocate (f : Nat → Nat) (c : Configuration) : Configuration :=
  { c with calls := c.calls.map f, place := f c.place }

/-- The configuration inside the code of its line, so many instructions after the first. -/
def within (f : Nat → Nat) (n : Nat) (c : Configuration) : Configuration :=
  { c.relocate f with place := f c.place + n }

section

variable {program program' : Program} {c d : Configuration} {i : Instruction} {f : Nat → Nat}

/-- An instruction without a label does the same in a configuration whose places are replaced, if the
    places of the instruction and of the one after it still follow each other. -/
theorem obey_relocate (h : i.label? = none) (following : f (c.place + 1) = f c.place + 1)
    (obeyed : c.obey program i = some d) :
    (c.relocate f).obey program' i = some (d.relocate f) := by
  cases flow : i.isFlow with
  | false =>
      obtain ⟨there, calls, place⟩ :=
        obey_elsewhere program' flow obeyed (c.calls.map f) (f c.place)
      rw [relocate, there, relocate, calls, place, following]
  | true =>
      cases i with
      | flow command =>
          cases command with
          | ret =>
              rw [obey_ret] at obeyed ⊢
              cases calls : c.calls with
              | nil => simp [calls] at obeyed
              | cons place rest =>
                  obtain rfl : { c with calls := rest, place } = d := by simpa [calls] using obeyed
                  simp [relocate, calls]
          | exit =>
              cases obeyed
              rfl
          | breakpoint =>
              obtain rfl : c.next = d := Option.some.inj obeyed
              have moved : c.next.relocate f = (c.relocate f).next := by
                simp only [relocate, next, following]
              rw [moved]
              rfl
          | _ => cases h
      | _ => cases flow

end

/-! ### Codes -/

/-- The machine gets from one configuration to another by one instruction of the program. -/
def Advances (program : Program) (c d : Configuration) : Prop :=
  c.halted = false ∧ ∃ i, program.instruction? c.place = some i ∧ c.obey program i = some d

/-- The machine gets from one configuration to another by instructions of the program. -/
def Reaches (program : Program) : Configuration → Configuration → Prop :=
  Relation.ReflTransGen (Advances program)

end Configuration

def CodeAt (program : Program) (place : Nat) (code : List Instruction) : Prop :=
  ∀ d i, code[d]? = some i → program.instruction? (place + d) = some i

namespace CodeAt

variable {program : Program} {place : Nat} {i : Instruction} {code more : List Instruction}

theorem head (h : CodeAt program place (i :: code)) : program.instruction? place = some i := h 0 i rfl

theorem tail (h : CodeAt program place (i :: code)) : CodeAt program (place + 1) code := by
  intro d j hj
  rw [Nat.add_assoc, Nat.add_comm 1]
  exact h (d + 1) j hj

theorem left (h : CodeAt program place (code ++ more)) : CodeAt program place code := by
  intro d j hj
  apply h d j
  rw [List.getElem?_append_left (List.getElem?_eq_some_iff.1 hj).1]
  exact hj

theorem right (h : CodeAt program place (code ++ more)) :
    CodeAt program (place + code.length) more := by
  intro d j hj
  rw [Nat.add_assoc]
  apply h (code.length + d) j
  rw [List.getElem?_append_right (Nat.le_add_right _ _), Nat.add_sub_cancel_left]
  exact hj

end CodeAt

/-- The first instruction of a code takes the machine to where the rest of the code takes over. -/
theorem Configuration.Reaches.obey {program : Program} {c d e : Configuration} {i : Instruction}
    {code : List Instruction} (here : CodeAt program c.place (i :: code)) (running : c.halted = false)
    (obeyed : c.obey program i = some d) (rest : Reaches program d e) : Reaches program c e :=
  .head ⟨running, i, here.head, obeyed⟩ rest

namespace Machine

open Whitespace.Configuration (Advances Reaches)

/-- The machine gets from one state to another by steps that complete. -/
def Runs (program : Program) : Machine → Machine → Prop :=
  Relation.ReflTransGen fun m m' => m.step program = (.done, m')

variable {program : Program} {m : Machine} {d : Configuration} {i : Instruction}

/-- A flow command takes no notice of the pause and of the count of steps. -/
theorem runFlow_unobserved (program : Program) (s : State) (command : FlowCommand) (paused : Bool)
    (steps : Nat) :
    runFlow program { s with paused, steps } command =
      (runFlow program s command).map fun s => { s with paused, steps } := by
  cases command with
  | mark l | call l | jump l =>
      simp only [runFlow]
      cases resolve program l <;> rfl
  | jumpZero l | jumpNegative l =>
      simp only [runFlow]
      cases resolve program l with
      | error f => rfl
      | ok target =>
          simp only [bind, Except.bind, State.branch]
          cases s.stack.pop? with
          | none => rfl
          | some popped =>
              simp only [Except.map]
              split <;> rfl
  | ret =>
      simp only [runFlow]
      cases s.calls <;> rfl
  | exit | breakpoint => rfl

/-- What an instruction does to the configuration of a machine it does to the machine. -/
theorem exists_completed (obeyed : m.configuration.obey program i = some d) :
    ∃ m', m.perform program i = .completed m' ∧ m'.configuration = d := by
  cases flow : i.isFlow with
  | false =>
      obtain ⟨change, spec⟩ := perform_eq_apply flow m.state.stack m.state.heap m.input m.output
      unfold Configuration.obey at obeyed
      rw [spec program m.configuration.machine rfl rfl rfl rfl] at obeyed
      rw [spec program m rfl rfl rfl rfl]
      cases change with
      | made stack heap input output =>
          cases obeyed
          exact ⟨_, rfl, rfl⟩
      | _ => cases obeyed
  | true =>
      cases i with
      | flow command =>
          have forgetful : runFlow program m.configuration.machine.state command =
              (runFlow program m.state command).map fun s => { s with paused := true, steps := 0 } :=
            runFlow_unobserved program m.state command true 0
          simp only [Configuration.obey, perform_flow, forgetful] at obeyed
          simp only [perform_flow]
          cases ran : runFlow program m.state command with
          | error f => simp [ran, Except.map, allOrNothing] at obeyed
          | ok s =>
              rw [ran] at obeyed
              cases obeyed
              exact ⟨_, rfl, rfl⟩
      | _ => cases flow

/-- An obeyed instruction is a step of the machine. -/
theorem exists_step_of_advances (advanced : Advances program m.configuration d) :
    ∃ m', m.step program = (.done, m') ∧ m'.configuration = d := by
  obtain ⟨running, i, fetched, obeyed⟩ := advanced
  obtain ⟨m', performed, rfl⟩ := exists_completed obeyed
  refine ⟨{ m' with state := m'.state.complete program }, ?_, rfl⟩
  have unhalted : m.state.halted = false := running
  have here : program.instruction? m.state.pc = some i := fetched
  simp only [step, unhalted, Bool.false_eq_true, if_false, here, performed]

/-- Configurations that follow each other are those of a run. -/
theorem runs_of_reaches {c : Configuration} (reached : Reaches program c d)
    (start : m.configuration = c) : ∃ m', Runs program m m' ∧ m'.configuration = d := by
  induction reached using Relation.ReflTransGen.head_induction_on generalizing m with
  | refl => exact ⟨m, .refl, start⟩
  | head advanced _ ih =>
      subst start
      obtain ⟨m', stepped, next⟩ := exists_step_of_advances advanced
      obtain ⟨m'', rest, finish⟩ := ih next
      exact ⟨m'', .head stepped rest, finish⟩

end Machine

/-- The code of a line stands at the place of the line. -/
theorem Assembly.Layout.codeAt {program : Program} {p : LineProgram}
    {address : Nat → Reference → Label} (layout : Layout program p address) {k : Nat} {s : Statement}
    (line : p[k]? = some (some s)) :
    CodeAt program (p.place k) (s.symbolic.map (Symbolic.numbered (address k))) := by
  intro d i hi
  rw [List.getElem?_map, Option.map_eq_some_iff] at hi
  obtain ⟨x, hx, rfl⟩ := hi
  exact layout.fetch line hx

end Whitespace

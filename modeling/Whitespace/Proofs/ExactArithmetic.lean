/-
Module: Whitespace.Proofs.ExactArithmetic
Purpose: The arithmetic of the machine is that of the integers, of any size and sign. Division rounds down, so
  a remainder has the sign of the divisor, and logic works on the endless digits of two's complement. A command
  with two operands puts its result in their place, and the complement looks at the top alone.
Main exports: binaryDigit, FloorDivision, Machine.conclude, ArithmeticCommand.Gives, gives_of_runArithmetic,
  arithmetic_exact
-/
import Mathlib.Algebra.Order.Ring.Int
import Whitespace.Proofs.BitwiseRoutines

namespace Whitespace

/-! ### Integers -/

/-- The binary digit of an integer at a place. In two's complement all digits of a negative integer are ones
    from some place on. -/
def binaryDigit (n : Int) (place : Nat) : Bool := n / 2 ^ place % 2 = 1

/-- The quotient and the remainder of a division that rounds down. -/
structure FloorDivision (a b q m : Int) : Prop where
  whole : a = b * q + m
  sign : m = 0 ∨ m.sign = b.sign
  small : |m| < |b|

/-- The digits of the two's complement are the bits that are tested. -/
theorem binaryDigit_eq_testBit (n : Int) (place : Nat) : binaryDigit n place = n.testBit place := by
  have quotient (n : Nat) : (n : Int) / 2 ^ place = (n / 2 ^ place : Nat) := by
    rw [Int.natCast_ediv, Int.natCast_pow]
    rfl
  cases n with
  | ofNat n =>
      rw [Int.testBit, Nat.testBit_eq_decide_div_mod_eq, binaryDigit, Int.ofNat_eq_natCast, quotient,
        decide_eq_decide]
      omega
  | negSucc n =>
      have below : Int.negSucc n / 2 ^ place = -((n : Int) / 2 ^ place + 1) :=
        Int.negSucc_ediv n (Int.pow_pos (by decide))
      rw [Int.testBit, Nat.testBit_eq_decide_div_mod_eq, binaryDigit, below, quotient, ← decide_not,
        decide_eq_decide]
      omega

theorem binaryDigit_bitAnd (a b : Int) (place : Nat) :
    binaryDigit (bitAnd a b) place = (binaryDigit a place && binaryDigit b place) := by
  simp only [binaryDigit_eq_testBit, bitAnd_eq_land, Int.testBit_land]

theorem binaryDigit_bitOr (a b : Int) (place : Nat) :
    binaryDigit (bitOr a b) place = (binaryDigit a place || binaryDigit b place) := by
  simp only [binaryDigit_eq_testBit, bitOr_eq_lor, Int.testBit_lor]

theorem binaryDigit_bitComplement (n : Int) (place : Nat) :
    binaryDigit (bitComplement n) place = !binaryDigit n place := by
  simp only [binaryDigit_eq_testBit, bitComplement_eq_lnot, Int.testBit_lnot]

/-- The quotient and the remainder by a positive divisor are those of a division that rounds down. -/
theorem floorDivision_of_pos (a : Int) {b : Int} (positive : 0 < b) :
    FloorDivision a b (a.fdiv b) (a.fmod b) := by
  have low := Int.fmod_nonneg_of_pos a positive
  have high := Int.fmod_lt_of_pos a positive
  refine ⟨(Int.mul_fdiv_add_fmod a b).symm, ?_, ?_⟩
  · rcases low.eq_or_lt with zero | more
    · exact Or.inl zero.symm
    · rw [Int.sign_eq_one_of_pos more, Int.sign_eq_one_of_pos positive]
      exact Or.inr rfl
  · rwa [abs_of_nonneg low, abs_of_pos positive]

/-- Both signs may be changed at once; only the remainder changes its own. -/
theorem FloorDivision.neg {a b q m : Int} (division : FloorDivision a b q m) :
    FloorDivision (-a) (-b) q (-m) := by
  obtain ⟨whole, sign, small⟩ := division
  refine ⟨?_, ?_, ?_⟩
  · rw [whole, neg_add, neg_mul]
  · rw [Int.sign_neg, Int.sign_neg, neg_inj, neg_eq_zero]
    exact sign
  · rwa [abs_neg, abs_neg]

theorem floorDivision_fdiv (a : Int) {b : Int} (nonzero : b ≠ 0) :
    FloorDivision a b (a.fdiv b) (a.fmod b) := by
  rcases nonzero.lt_or_gt with negative | positive
  · have division := (floorDivision_of_pos (-a) (Int.neg_pos_of_neg negative)).neg
    rwa [Int.neg_fmod_neg, Int.neg_fdiv_neg, neg_neg, neg_neg, neg_neg] at division
  · exact floorDivision_of_pos a positive

/-! ### Steps -/

namespace Machine

/-- How a step ends that puts another stack in place of the old one, or fails. -/
def conclude (program : Program) (m : Machine) (i : Instruction) :
    Except Fault Stack → Outcome × Machine
  | .ok stack => (.done, { m with state := State.complete program { m.state with stack }.next })
  | .error f => (.failed ⟨m.state.pc, some i, f⟩, m)

end Machine

open Machine (Fault Stack runArithmetic)

/-- What carrying out the command does to a stack, in any program and at any place there. Nothing else but the
    place and the count of steps changes, and nothing at all when the command fails. -/
def ArithmeticCommand.Gives (command : ArithmeticCommand) (before : Stack) (result : Except Fault Stack) :
    Prop :=
  ∀ (program : Program) (m : Machine), m.state.halted = false →
    program.instruction? m.state.pc = some (.arithmetic command) → m.state.stack = before →
    m.step program = m.conclude program (.arithmetic command) result

/-- Each arithmetic command gives the result that is asked of it. -/
theorem gives_of_runArithmetic {command : ArithmeticCommand} {before : Stack} {result : Except Fault Stack}
    (ran : runArithmetic before command = result) : command.Gives before result := by
  intro program m running here stack
  unfold Machine.step
  rw [running, here]
  simp only [Bool.false_eq_true, if_false, Machine.perform_arithmetic, stack, ran]
  cases result with
  | ok after => rfl
  | error f => rfl

/-- A computed result is the one that is asked of the command. -/
theorem gives_of_compute {command : ArithmeticCommand} {s : Stack} {a b : Int} {result : Except Fault Int}
    (proper : command ≠ .complement) (computed : Machine.compute a b command = result) :
    command.Gives ((s.push a).push b) (result.map s.push) := by
  apply gives_of_runArithmetic
  cases command with
  | complement => exact absurd rfl proper
  | add | subtract | multiply | divide | modulo | and | or =>
      simp only [runArithmetic, Stack.popTwo?_push_push, computed]

/-- The arithmetic commands are exact on all integers. With `a` below `b` on top of a stack, a command with two
    operands leaves its result on the rest of the stack, and the complement of `b` takes the place of `b`
    alone. -/
theorem arithmetic_exact (s : Stack) (a b : Int) :
    let operands := (s.push a).push b
    ArithmeticCommand.add.Gives operands (.ok (s.push (a + b))) ∧
    ArithmeticCommand.subtract.Gives operands (.ok (s.push (a - b))) ∧
    ArithmeticCommand.multiply.Gives operands (.ok (s.push (a * b))) ∧
    (b ≠ 0 → ∃ q m, FloorDivision a b q m ∧
      ArithmeticCommand.divide.Gives operands (.ok (s.push q)) ∧
      ArithmeticCommand.modulo.Gives operands (.ok (s.push m))) ∧
    (b = 0 → ArithmeticCommand.divide.Gives operands (.error .divisionByZero) ∧
      ArithmeticCommand.modulo.Gives operands (.error .moduloByZero)) ∧
    (∃ r, (∀ i, binaryDigit r i = (binaryDigit a i && binaryDigit b i)) ∧
      ArithmeticCommand.and.Gives operands (.ok (s.push r))) ∧
    (∃ r, (∀ i, binaryDigit r i = (binaryDigit a i || binaryDigit b i)) ∧
      ArithmeticCommand.or.Gives operands (.ok (s.push r))) ∧
    ∃ r, (∀ i, binaryDigit r i = !binaryDigit b i) ∧
      ArithmeticCommand.complement.Gives operands (.ok ((s.push a).push r)) := by
  intro operands
  refine ⟨gives_of_compute (by decide) rfl, gives_of_compute (by decide) rfl,
    gives_of_compute (by decide) rfl, ?_, ?_, ?_, ?_, ?_⟩
  · intro nonzero
    have quotient : Machine.compute a b .divide = .ok (a.fdiv b) := if_neg nonzero
    have remainder : Machine.compute a b .modulo = .ok (a.fmod b) := if_neg nonzero
    exact ⟨_, _, floorDivision_fdiv a nonzero, gives_of_compute (by decide) quotient,
      gives_of_compute (by decide) remainder⟩
  · intro zero
    have quotient : Machine.compute a b .divide = .error .divisionByZero := if_pos zero
    have remainder : Machine.compute a b .modulo = .error .moduloByZero := if_pos zero
    exact ⟨gives_of_compute (by decide) quotient, gives_of_compute (by decide) remainder⟩
  · exact ⟨_, binaryDigit_bitAnd a b, gives_of_compute (by decide) rfl⟩
  · exact ⟨_, binaryDigit_bitOr a b, gives_of_compute (by decide) rfl⟩
  · refine ⟨_, binaryDigit_bitComplement b, gives_of_runArithmetic ?_⟩
    simp only [operands, runArithmetic, Stack.pop?_push]

/-- Seven divided by minus two is minus four, and minus one is left over. -/
theorem arithmetic_exact_negative_divisor :
    FloorDivision 7 (-2) (-4) (-1) ∧
      ∀ input, (Machine.step (Program.ofInstructions [.arithmetic .divide])
        { state := { stack := (Stack.empty.push 7).push (-2) }, input }).2.state.stack =
          Stack.empty.push (-4) := by
  obtain ⟨q, m, division, divides, -⟩ := (arithmetic_exact Stack.empty 7 (-2)).2.2.2.1 (by decide)
  obtain ⟨low, high⟩ : -2 < m ∧ m < 2 := abs_lt.1 division.small
  have whole := division.whole
  have negative : m < 0 := by
    rcases division.sign with zero | sign
    · omega
    · exact Int.sign_eq_neg_one_iff_neg.1 sign
  obtain rfl : q = -4 := by omega
  obtain rfl : m = -1 := by omega
  refine ⟨division, fun input => ?_⟩
  rw [divides _ _ rfl rfl rfl]
  rfl

end Whitespace

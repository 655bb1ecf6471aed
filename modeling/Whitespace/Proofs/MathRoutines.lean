/-
Module: Whitespace.Proofs.MathRoutines
Purpose: The routines of the library for integers compute what they are named for, whatever their operands
  are: the absolute value of a number, the smaller and the larger of two numbers, and a power. Two numbers
  are compared by the sign of their difference, and a power is a loop that multiplies.
Main exports: MathCall, MathCall.result, reaches_power, MathCall.subroutine, math_routines_exact
-/
import Mathlib.Algebra.Order.Ring.Int
import Mathlib.Algebra.Order.Group.Abs
import Whitespace.Proofs.Routines

namespace Whitespace.Assembly

open Whitespace.Configuration (Reaches)

/-! ### The lines of the routines -/

namespace Library

def absStatements : List Statement :=
  [.label "abs", .plain (.stack .duplicate), .jump .negative "__math_abs_negative", .plain (.flow .ret),
    .label "__math_abs_negative", .arithmetic .multiply (some (-1)), .plain (.flow .ret)]

/-- One of two numbers: what is done with them depends on whether the first one is less. -/
def choiceStatements (entry less : String) (otherwise chosen : Statement) : List Statement :=
  [.label entry, .copy 1, .copy 1, .arithmetic .subtract none, .jump .negative less, otherwise,
    .plain (.flow .ret), .label less, chosen, .plain (.flow .ret)]

def minStatements : List Statement :=
  choiceStatements "min" "__math_min_first" (.slide 1) (.plain (.stack .discard))

def maxStatements : List Statement :=
  choiceStatements "max" "__math_max_second" (.plain (.stack .discard)) (.slide 1)

/-- A number multiplied by itself as often as an exponent says. -/
def powStatements : List Statement :=
  [.label "pow", .push 1, .label "__math_pow_loop", .copy 1, .jump .zero "__math_pow_done", .copy 2,
    .arithmetic .multiply none, .plain (.stack .swap), .arithmetic .subtract (some 1), .plain (.stack .swap),
    .jump .always "__math_pow_loop", .label "__math_pow_done", .slide 2, .plain (.flow .ret)]

/-- The math library, statement by statement. -/
theorem statements_math (options : Options) : statements options "math" =
    ((.jump .always "__math_end" :: (absStatements ++ minStatements ++ maxStatements ++ powStatements ++
      [.label "__math_end"]) : List Statement)).map some := by
  obtain ⟨_ | _⟩ := options
  all_goals
    apply statements_of_toList rfl
    · repeat apply map_toList_cons
      exact List.map_nil
    · decide +kernel

end Library

/-! ### Calls -/

/-- A call of one of the routines, with its operands. An exponent must not be negative. -/
inductive MathCall where
  | abs (n : Int)
  | min (a b : Int)
  | max (a b : Int)
  | pow (base : Int) (exponent : Nat)

namespace MathCall

/-- The label that the routine starts with. -/
def name : MathCall → String
  | abs _ => "abs"
  | min _ _ => "min"
  | max _ _ => "max"
  | pow _ _ => "pow"

/-- The label that follows the routine. -/
def next : MathCall → String
  | abs _ => "min"
  | min _ _ => "max"
  | max _ _ => "pow"
  | pow _ _ => "__math_end"

def operands : MathCall → List Int
  | abs n => [n]
  | min a b | max a b => [a, b]
  | pow base exponent => [base, exponent]

/-- What takes the place of the operands. The zeroth power of any number is one. -/
def result : MathCall → Int
  | abs n => |n|
  | min a b => Min.min a b
  | max a b => Max.max a b
  | pow base exponent => base ^ exponent

def routine (call : MathCall) (options : Options) : List Symbolic :=
  Library.routine options "math" call.name call.next

/-- The statements of the routine. -/
def statements : MathCall → List Statement
  | abs _ => Library.absStatements
  | min _ _ => Library.minStatements
  | max _ _ => Library.maxStatements
  | pow _ _ => Library.powStatements

theorem routine_eq (call : MathCall) (options : Options) :
    call.routine options = call.statements.flatMap Statement.symbolic := by
  cases call
  all_goals
    rw [routine, Library.routine, Library.statements_math]
    rfl

theorem routine_head (call : MathCall) (options : Options) :
    (call.routine options)[0]? = some (.branch .mark (.named call.name)) := by
  rw [routine_eq]
  cases call <;> rfl

end MathCall

/-! ### The routines -/

section

variable {program : Program} {address : Reference → Label} {place : Nat} {c : Configuration}

/-- The routine for `abs` answers the absolute value. -/
theorem subroutine_abs (copy : CopyAt program address place (Library.absStatements.flatMap Statement.symbolic))
    (n : Int) : Subroutine program (place + 1) (c.pushAll [n]) (c.pushAll [|n|]) := by
  intro back
  have looks : Reaches program (((c.called back).pushAll [n]).runningAt (place + 1))
      (((c.called back).pushAll [n, n]).runningAt (place + 2)) :=
    copy.straight 1 [.stack .duplicate] rfl rfl (by simp)
  by_cases negative : n < 0
  · have value : |n| = n * -1 := by
      rw [abs_of_neg negative]
      omega
    rw [value]
    calc
      Reaches program _ _ := looks
      Reaches program _ (((c.called back).pushAll [n]).runningAt (place + 5)) :=
        copy.jumpNegative 2 4 negative rfl rfl
      Reaches program _ (((c.called back).pushAll [n * -1]).runningAt (place + 7)) :=
        copy.straight 5 [pushOf (-1), .arithmetic .multiply] rfl rfl (by simp)
      Reaches program _ ((c.pushAll [n * -1]).runningAt back) := copy.leave (c := c.pushAll [n * -1]) 7 rfl
  · have nonneg : 0 ≤ n := Int.not_lt.1 negative
    rw [abs_of_nonneg nonneg]
    calc
      Reaches program _ _ := looks
      Reaches program _ (((c.called back).pushAll [n]).runningAt (place + 3)) :=
        copy.jumpNegative_of_nonneg 2 4 nonneg rfl rfl
      Reaches program _ ((c.pushAll [n]).runningAt back) := copy.leave (c := c.pushAll [n]) 3 rfl

/-- A routine that chooses between two numbers does one thing with them when the first one is less, and another
    when it is not. -/
theorem subroutine_choice {entry less : Reference} {otherwise chosen : Instruction} {a b u v : Int}
    (copy : CopyAt program address place [.branch .mark entry, .fixed (.stack (.copy 1)),
      .fixed (.stack (.copy 1)), .fixed (.arithmetic .subtract), .branch .jumpNegative less, .fixed otherwise,
      .fixed (.flow .ret), .branch .mark less, .fixed chosen, .fixed (.flow .ret)])
    (leaves : ∀ c : Configuration, (c.pushAll [a, b]).work otherwise = some (c.pushAll [u]))
    (takes : ∀ c : Configuration, (c.pushAll [a, b]).work chosen = some (c.pushAll [v])) :
    Subroutine program (place + 1) (c.pushAll [a, b]) (c.pushAll [if a < b then v else u]) := by
  intro back
  have compares : Reaches program (((c.called back).pushAll [a, b]).runningAt (place + 1))
      (((c.called back).pushAll [a, b, a - b]).runningAt (place + 4)) :=
    copy.straight 1 [.stack (.copy 1), .stack (.copy 1), .arithmetic .subtract] rfl rfl (by simp)
  by_cases smaller : a < b
  · rw [if_pos smaller]
    calc
      Reaches program _ _ := compares
      Reaches program _ (((c.called back).pushAll [a, b]).runningAt (place + 8)) :=
        copy.jumpNegative 4 7 (Int.sub_neg_of_lt smaller) rfl rfl
      Reaches program _ (((c.called back).pushAll [v]).runningAt (place + 9)) :=
        copy.straight 8 [chosen] rfl rfl (by rw [Configuration.workAll_cons, takes]; rfl)
      Reaches program _ ((c.pushAll [v]).runningAt back) := copy.leave (c := c.pushAll [v]) 9 rfl
  · rw [if_neg smaller]
    calc
      Reaches program _ _ := compares
      Reaches program _ (((c.called back).pushAll [a, b]).runningAt (place + 5)) :=
        copy.jumpNegative_of_nonneg 4 7 (Int.sub_nonneg_of_le (Int.not_lt.1 smaller)) rfl rfl
      Reaches program _ (((c.called back).pushAll [u]).runningAt (place + 6)) :=
        copy.straight 5 [otherwise] rfl rfl (by rw [Configuration.workAll_cons, leaves]; rfl)
      Reaches program _ ((c.pushAll [u]).runningAt back) := copy.leave (c := c.pushAll [u]) 6 rfl

theorem subroutine_min (copy : CopyAt program address place (Library.minStatements.flatMap Statement.symbolic))
    (a b : Int) : Subroutine program (place + 1) (c.pushAll [a, b]) (c.pushAll [min a b]) := by
  have value : min a b = if a < b then a else b := min_def_lt a b
  rw [value]
  exact subroutine_choice copy (fun c => by simp) (fun c => by simp)

theorem subroutine_max (copy : CopyAt program address place (Library.maxStatements.flatMap Statement.symbolic))
    (a b : Int) : Subroutine program (place + 1) (c.pushAll [a, b]) (c.pushAll [max a b]) := by
  have value : max a b = if a < b then b else a := max_def_lt a b
  rw [value]
  exact subroutine_choice copy (fun c => by simp) (fun c => by simp)

/-- One turn of the loop multiplies the product by the base and lessens the exponent. -/
theorem workAll_power (base product exponent : Int) :
    (c.pushAll [base, exponent, product]).workAll [.stack (.copy 2), .arithmetic .multiply, .stack .swap, pushOf 1,
        .arithmetic .subtract, .stack .swap] =
      some (c.pushAll [base, exponent - 1, product * base]) := by
  simp

/-- The loop goes on until the exponent is zero. What stays is the product times the power. -/
theorem reaches_power (copy : CopyAt program address place (Library.powStatements.flatMap Statement.symbolic))
    (base product : Int) (exponent : Nat) :
    Reaches program ((c.pushAll [base, exponent, product]).runningAt (place + 3))
      ((c.pushAll [base, 0, product * base ^ exponent]).runningAt (place + 13)) := by
  have looks (exponent : Int) (product : Int) :
      Reaches program ((c.pushAll [base, exponent, product]).runningAt (place + 3))
        ((c.pushAll [base, exponent, product, exponent]).runningAt (place + 4)) :=
    copy.straight 3 [.stack (.copy 1)] rfl rfl (by simp)
  induction exponent generalizing product with
  | zero =>
      rw [pow_zero, mul_one]
      calc
        Reaches program _ _ := looks 0 product
        Reaches program _ ((c.pushAll [base, 0, product]).runningAt (place + 13)) := copy.jumpZero 4 12 rfl rfl
  | succ exponent ih =>
      have nonzero : ((exponent + 1 : Nat) : Int) ≠ 0 := by omega
      have less : ((exponent + 1 : Nat) : Int) - 1 = exponent := by omega
      rw [pow_succ', ← mul_assoc]
      calc
        Reaches program _ _ := looks (exponent + 1 : Nat) product
        Reaches program _ ((c.pushAll [base, (exponent + 1 : Nat), product]).runningAt (place + 5)) :=
          copy.jumpZero_of_ne 4 12 nonzero rfl rfl
        Reaches program _ ((c.pushAll [base, exponent, product * base]).runningAt (place + 11)) := by
          rw [← less]
          exact copy.straight 5 _ rfl rfl (workAll_power base product (exponent + 1 : Nat))
        Reaches program _ ((c.pushAll [base, exponent, product * base]).runningAt (place + 3)) :=
          copy.jump 11 2 rfl rfl
        Reaches program _ _ := ih (product * base)

/-- The routine for `pow` answers the power, by induction on the exponent. -/
theorem subroutine_pow (copy : CopyAt program address place (Library.powStatements.flatMap Statement.symbolic))
    (base : Int) (exponent : Nat) :
    Subroutine program (place + 1) (c.pushAll [base, exponent]) (c.pushAll [base ^ exponent]) := by
  intro back
  have power := reaches_power (c := c.called back) copy base 1 exponent
  rw [one_mul] at power
  calc
    Reaches program (((c.called back).pushAll [base, exponent]).runningAt (place + 1))
        (((c.called back).pushAll [base, exponent, 1]).runningAt (place + 2)) :=
      copy.straight 1 [pushOf 1] rfl rfl (by simp)
    Reaches program _ (((c.called back).pushAll [base, exponent, 1]).runningAt (place + 3)) := copy.mark 2 rfl
    Reaches program _ (((c.called back).pushAll [base, 0, base ^ exponent]).runningAt (place + 13)) := power
    Reaches program _ (((c.called back).pushAll [base ^ exponent]).runningAt (place + 14)) :=
      copy.straight 13 [.stack (.slide 2)] rfl rfl (by simp)
    Reaches program _ ((c.pushAll [base ^ exponent]).runningAt back) :=
      copy.leave (c := c.pushAll [base ^ exponent]) 14 rfl

/-- Every routine leaves its result in the place of its operands. -/
theorem MathCall.subroutine {options : Options} (call : MathCall)
    (copy : CopyAt program address place (call.routine options)) :
    Subroutine program (place + 1) (c.pushAll call.operands) (c.pushAll [call.result]) := by
  rw [routine_eq] at copy
  cases call with
  | abs n => exact subroutine_abs copy n
  | min a b => exact subroutine_min copy a b
  | max a b => exact subroutine_max copy a b
  | pow base exponent => exact subroutine_pow copy base exponent

end

/-- The routines for integers are exact. A machine that calls one of them, in a program that holds a copy of the
    code of the routine, gets back with the result in the place of the operands, and all else is as it was. -/
theorem math_routines_exact (call : MathCall) {program : Program} {address : Reference → Label}
    {options : Options} {place : Nat} (copy : CopyAt program address place (call.routine options)) (m : Machine)
    (rest : Machine.Stack) (calling : m.Calling program (address (.named call.name)) call.operands rest) :
    m.Returns program { m.configuration with stack := rest.push call.result } := by
  have target := copy.marked (d := 0) (call.routine_head options)
  exact Subroutine.returns calling target (call.subroutine copy)

/-- A negative number to the power of three, with another value below the operands. -/
theorem math_routines_exact_cube :
    let call := MathCall.pow (-2) 3
    let before : List Statement := [.push 7, .push (-2), .push 3, .call "pow", .plain (.flow .exit)]
    let p : LineProgram := (before ++ (Library.powStatements ++ [])).map some
    let program := Program.ofInstructions p.code
    let rest := Machine.Stack.empty.push 7
    let m : Machine := { state := { stack := (rest.push (-2)).push 3, pc := 3 }, input := ⟨.ofText "", []⟩ }
    CopyAt program (p.address 0) 5 (call.routine {}) ∧
      m.Calling program (p.address 0 (.named "pow")) call.operands rest ∧
      m.Returns program { m.configuration with stack := rest.push (-8) } := by
  intro call before p program rest m
  have copy : CopyAt program (p.address 0) 5 (call.routine {}) := by
    rw [MathCall.routine_eq]
    exact copyAt_statements rfl (by decide +kernel) (by decide +kernel) (by decide +kernel)
  have calling : m.Calling program (p.address 0 (.named "pow")) call.operands rest :=
    ⟨rfl, by decide +kernel, rfl⟩
  have value : call.result = -8 := by decide
  have returns := math_routines_exact call copy m rest calling
  rw [value] at returns
  exact ⟨copy, calling, returns⟩

end Whitespace.Assembly

/-
Module: Whitespace.Proofs.BitwiseRoutines
Purpose: The routines of the library for logic on binary digits do the same in both of its variants. The
  variant without the extensions halves both operands again and again, until one of them is zero, and puts
  the result together digit by digit; so it comes to an end when one of the operands is not negative.
Main exports: land_halves, lor_halves, halves_induction, LogicCall, LogicCall.result, LogicCall.routine,
  bitwise_variants_agree
-/
import Mathlib.Data.Int.Bitwise
import Whitespace.Proofs.Routines

namespace Whitespace

open Whitespace.Configuration (Reaches)

/-! ### Binary digits by arithmetic -/

theorem maskOut_eq_ldiff (m n : Nat) : maskOut m n = Nat.ldiff m n := by
  apply Nat.eq_of_testBit_eq
  intro k
  rw [maskOut, Nat.testBit_xor, Nat.testBit_and, Nat.testBit_ldiff]
  cases m.testBit k <;> cases n.testBit k <;> rfl

theorem bitAnd_eq_land (a b : Int) : bitAnd a b = Int.land a b := by
  cases a <;> cases b <;> simp [bitAnd, Int.land, maskOut_eq_ldiff]

theorem bitOr_eq_lor (a b : Int) : bitOr a b = Int.lor a b := by
  cases a <;> cases b <;> simp [bitOr, Int.lor, maskOut_eq_ldiff]

theorem bitComplement_eq_lnot (n : Int) : bitComplement n = Int.lnot n := by
  cases n <;> rfl

/-- A number is its last digit and twice the others. -/
theorem exists_bit_halves (n : Int) :
    ∃ digit, n = Int.bit digit (n.fdiv 2) ∧ n.fmod 2 = cond digit 1 0 := by
  refine ⟨n.bodd, ?_, ?_⟩
  · rw [Int.fdiv_eq_ediv_of_nonneg n (by decide), ← Int.div2_val, Int.bit_decomp]
  · have whole := Int.bodd_add_div2 n
    rw [Int.div2_val] at whole
    rw [Int.fmod_eq_emod_of_nonneg n (by decide)]
    cases digit : n.bodd <;> simp only [digit, cond_true, cond_false] at whole ⊢ <;> omega

/-- The conjunction of the last digits and that of the others. -/
theorem land_halves (a b : Int) :
    a.fmod 2 * b.fmod 2 + Int.land (a.fdiv 2) (b.fdiv 2) * 2 = Int.land a b := by
  obtain ⟨p, split, last⟩ := exists_bit_halves a
  obtain ⟨q, split', last'⟩ := exists_bit_halves b
  conv => rhs; rw [split, split', Int.land_bit, Int.bit_val]
  rw [last, last']
  cases p <;> cases q <;> simp <;> omega

/-- The disjunction of the last digits, by their sum, and that of the others. -/
theorem lor_halves (a b : Int) :
    (a.fmod 2 + b.fmod 2 + 1).fdiv 2 + Int.lor (a.fdiv 2) (b.fdiv 2) * 2 = Int.lor a b := by
  obtain ⟨p, split, last⟩ := exists_bit_halves a
  obtain ⟨q, split', last'⟩ := exists_bit_halves b
  conv => rhs; rw [split, split', Int.lor_bit, Int.bit_val]
  rw [last, last']
  cases p <;> cases q <;> simp <;> omega

/-- Halving both of two numbers that are not both negative comes to a pair with a zero. -/
theorem halves_induction {motive : Int → Int → Prop} (zero : ∀ a b, a = 0 ∨ b = 0 → motive a b)
    (halves : ∀ a b, a ≠ 0 → b ≠ 0 → motive (a.fdiv 2) (b.fdiv 2) → motive a b) {a b : Int}
    (mixed : 0 ≤ a ∨ 0 ≤ b) : motive a b := by
  -- the number that is not negative gets smaller, and the signs stay
  induction size : if 0 ≤ a then a.toNat else b.toNat using Nat.strong_induction_on generalizing a b with
  | _ n ih =>
      by_cases done : a = 0 ∨ b = 0
      · exact zero a b done
      · rw [not_or] at done
        apply halves a b done.1 done.2
        have half : ∀ n : Int, n.fdiv 2 = n / 2 := fun n => Int.fdiv_eq_ediv_of_nonneg n (by decide)
        rw [half, half]
        refine ih _ ?_ ?_ rfl
        · subst size
          split_ifs <;> omega
        · omega

/-- Nothing is in common with zero. -/
theorem land_of_zero {a b : Int} (zero : a = 0 ∨ b = 0) : Int.land a b = 0 := by
  rw [← bitAnd_eq_land]
  rcases zero with rfl | rfl
  · cases b <;> simp [bitAnd, maskOut]
  · cases a <;> simp [bitAnd, maskOut]

theorem lor_zero_left (b : Int) : Int.lor 0 b = b := by
  rw [← bitOr_eq_lor]
  cases b <;> simp [bitOr, maskOut]

theorem lor_zero_right (a : Int) : Int.lor a 0 = a := by
  rw [← bitOr_eq_lor]
  cases a <;> simp [bitOr, maskOut]

namespace Assembly

/-! ### The lines of the routines -/

namespace Library

/-- The conjunction of two numbers, by arithmetic. -/
def andStatements : List Statement :=
  [.label "and", .copy 1, .jump .zero "__bitwise_and_zero", .plain (.stack .duplicate),
    .jump .zero "__bitwise_and_zero", .copy 1, .arithmetic .modulo (some 2), .copy 1,
    .arithmetic .modulo (some 2), .arithmetic .multiply none, .copy 2, .arithmetic .divide (some 2), .copy 2,
    .arithmetic .divide (some 2), .call "and", .arithmetic .multiply (some 2), .arithmetic .add none, .slide 2,
    .plain (.flow .ret), .label "__bitwise_and_zero", .plain (.stack .discard), .plain (.stack .discard),
    .push 0, .plain (.flow .ret)]

/-- The disjunction of two numbers, by arithmetic. -/
def orStatements : List Statement :=
  [.label "or", .copy 1, .jump .zero "__bitwise_or_first_zero", .plain (.stack .duplicate),
    .jump .zero "__bitwise_or_second_zero", .copy 1, .arithmetic .modulo (some 2), .copy 1,
    .arithmetic .modulo (some 2), .arithmetic .add none, .arithmetic .add (some 1),
    .arithmetic .divide (some 2), .copy 2, .arithmetic .divide (some 2), .copy 2, .arithmetic .divide (some 2),
    .call "or", .arithmetic .multiply (some 2), .arithmetic .add none, .slide 2, .plain (.flow .ret),
    .label "__bitwise_or_first_zero", .slide 1, .plain (.flow .ret), .label "__bitwise_or_second_zero",
    .plain (.stack .discard), .plain (.flow .ret)]

def notStatements : List Statement :=
  [.label "not", .arithmetic .multiply (some (-1)), .arithmetic .subtract (some 1), .plain (.flow .ret)]

/-- Without the extension the library is a jump over its three routines and the label behind them. -/
theorem statements_bitwise : statements {} "bitwise" =
    ((.jump .always "__bitwise_end" :: (andStatements ++ orStatements ++ notStatements ++
      [.label "__bitwise_end"]) : List Statement)).map some := by
  apply statements_of_toList rfl
  · repeat apply map_toList_cons
    exact List.map_nil
  · decide +kernel

/-- The bitwise library as it is with the extensions, statement by statement. -/
theorem statements_bitwise_extended : statements .extended "bitwise" =
    ([.jump .always "__bitwise_end", .label "and", .arithmetic .and none, .plain (.flow .ret), .label "or",
      .arithmetic .or none, .plain (.flow .ret), .label "not", .plain (.arithmetic .complement),
      .plain (.flow .ret), .label "__bitwise_end"] : List Statement).map some := by
  apply statements_of_toList rfl
  · repeat apply map_toList_cons
    exact List.map_nil
  · decide +kernel

end Library

/-! ### Calls -/

/-- A call of one of the routines, with its operands. -/
inductive LogicCall where
  | and (a b : Int)
  | or (a b : Int)
  | not (n : Int)

namespace LogicCall

def name : LogicCall → String
  | and _ _ => "and"
  | or _ _ => "or"
  | not _ => "not"

def next : LogicCall → String
  | and _ _ => "or"
  | or _ _ => "not"
  | not _ => "__bitwise_end"

def operands : LogicCall → List Int
  | and a b | or a b => [a, b]
  | not n => [n]

/-- The result, in two's complement. -/
def result : LogicCall → Int
  | and a b => Int.land a b
  | or a b => Int.lor a b
  | not n => Int.lnot n

/-- The operands of the call are not both negative; that of a complement may be any number. -/
def Mixed : LogicCall → Prop
  | and a b | or a b => 0 ≤ a ∨ 0 ≤ b
  | not _ => True

def routine (call : LogicCall) (options : Options) : List Symbolic :=
  Library.routine options "bitwise" call.name call.next

/-- The statements of the routine in the variant without the extensions. -/
def statements : LogicCall → List Statement
  | and _ _ => Library.andStatements
  | or _ _ => Library.orStatements
  | not _ => Library.notStatements

def command : LogicCall → ArithmeticCommand
  | and _ _ => .and
  | or _ _ => .or
  | not _ => .complement

theorem routine_plain (call : LogicCall) :
    call.routine {} = call.statements.flatMap Statement.symbolic := by
  cases call
  all_goals
    rw [routine, Library.routine, Library.statements_bitwise]
    rfl

theorem routine_plain_head (call : LogicCall) :
    (call.routine {})[0]? = some (.branch .mark (.named call.name)) := by
  rw [routine_plain]
  cases call <;> rfl

theorem routine_extended (call : LogicCall) : call.routine .extended =
    [.branch .mark (.named call.name), .fixed (.arithmetic call.command), .fixed (.flow .ret)] := by
  cases call
  all_goals
    rw [routine, Library.routine, Library.statements_bitwise_extended]
    rfl

theorem routine_extended_head (call : LogicCall) :
    (call.routine .extended)[0]? = some (.branch .mark (.named call.name)) := by
  rw [routine_extended]
  rfl

end LogicCall

/-! ### The routines without the extensions -/

section

variable {program : Program} {address : Reference → Label} {place : Nat} {code : List Symbolic} {c : Configuration}
  {a b : Int}

/-- The routines begin by testing their operands for zero. -/
theorem tests {entry first second : Reference} {rest : List Symbolic}
    (copy : CopyAt program address place (.branch .mark entry :: .fixed (.stack (.copy 1)) ::
      .branch .jumpZero first :: .fixed (.stack .duplicate) :: .branch .jumpZero second :: rest)) (t t' : Nat)
    (marks : rest[t]? = some (.branch .mark first)) (marks' : rest[t']? = some (.branch .mark second))
    (c : Configuration) (a b : Int) :
    Reaches program ((c.pushAll [a, b]).runningAt (place + 1))
      ((c.pushAll [a, b]).runningAt
        (place + if a = 0 then t + 6 else if b = 0 then t' + 6 else 5)) := by
  have looks : Reaches program ((c.pushAll [a, b]).runningAt (place + 1))
      ((c.pushAll [a, b, a]).runningAt (place + 2)) :=
    copy.straight 1 [.stack (.copy 1)] rfl rfl (by simp)
  have looks' : Reaches program ((c.pushAll [a, b]).runningAt (place + 3))
      ((c.pushAll [a, b, b]).runningAt (place + 4)) :=
    copy.straight 3 [.stack .duplicate] rfl rfl (by simp)
  by_cases zero : a = 0
  · rw [if_pos zero]
    subst zero
    exact looks.trans (copy.jumpZero 2 (t + 5) rfl marks)
  rw [if_neg zero]
  have passes : Reaches program ((c.pushAll [a, b]).runningAt (place + 1))
      ((c.pushAll [a, b, b]).runningAt (place + 4)) :=
    (looks.trans (copy.jumpZero_of_ne 2 (t + 5) zero rfl marks)).trans looks'
  by_cases zero' : b = 0
  · rw [if_pos zero']
    subst zero'
    exact passes.trans (copy.jumpZero 4 (t' + 5) rfl marks')
  · rw [if_neg zero']
    exact passes.trans (copy.jumpZero_of_ne 4 (t' + 5) zero' rfl marks')

/-- The routines end by calling themselves with the halves of their operands, the last digit of the result being
    on top of the operands. -/
theorem halves {self : Reference} {entry back : Nat} {rest : List Symbolic}
    (copy : CopyAt program address place (.fixed (.stack (.copy 2)) :: .fixed (pushOf 2) ::
      .fixed (.arithmetic .divide) :: .fixed (.stack (.copy 2)) :: .fixed (pushOf 2) ::
      .fixed (.arithmetic .divide) :: .branch .call self :: .fixed (pushOf 2) :: .fixed (.arithmetic .multiply) ::
      .fixed (.arithmetic .add) :: .fixed (.stack (.slide 2)) :: .fixed (.flow .ret) :: rest))
    (target : program.target? (address self) = some entry) {a b digit others : Int}
    (calls : ∀ c : Configuration, Subroutine program entry (c.pushAll [a.fdiv 2, b.fdiv 2]) (c.pushAll [others]))
    (c : Configuration) :
    Reaches program (((c.called back).pushAll [a, b, digit]).runningAt place)
      ((c.pushAll [digit + others * 2]).runningAt back) :=
  calc
    Reaches program _ (((c.called back).pushAll [a, b, digit, a.fdiv 2, b.fdiv 2]).runningAt (place + 6)) :=
      copy.straight 0 [.stack (.copy 2), pushOf 2, .arithmetic .divide, .stack (.copy 2), pushOf 2,
        .arithmetic .divide] rfl rfl (by simp)
    Reaches program _ (((c.called back).pushAll [a, b, digit, others]).runningAt (place + 7)) :=
      copy.call 6 rfl target (calls ((c.called back).pushAll [a, b, digit]))
    Reaches program _ (((c.called back).pushAll [digit + others * 2]).runningAt (place + 11)) :=
      copy.straight 7 [pushOf 2, .arithmetic .multiply, .arithmetic .add, .stack (.slide 2)] rfl rfl (by simp)
    Reaches program _ ((c.pushAll [digit + others * 2]).runningAt back) :=
      copy.leave (c := c.pushAll [digit + others * 2]) 11 rfl

section

variable (copy : CopyAt program address place (Library.andStatements.flatMap Statement.symbolic))

include copy

/-- The routine for `and` answers 0 at once when one of its operands is 0. -/
theorem and_of_zero (zero : a = 0 ∨ b = 0) (c : Configuration) :
    Subroutine program (place + 1) (c.pushAll [a, b]) (c.pushAll [Int.land a b]) := by
  intro back
  have tested := tests copy 19 19 rfl rfl (c.called back) a b
  have chosen : (if a = 0 then 19 + 6 else if b = 0 then 19 + 6 else 5) = 25 := by
    rcases zero with zero | zero <;> simp [zero]
  rw [chosen] at tested
  rw [land_of_zero zero]
  calc
    Reaches program _ _ := tested
    Reaches program _ (((c.called back).pushAll [0]).runningAt (place + 28)) :=
      copy.straight 25 [.stack .discard, .stack .discard, pushOf 0] rfl rfl (by simp)
    Reaches program _ ((c.pushAll [0]).runningAt back) := copy.leave (c := c.pushAll [0]) 28 rfl

/-- The routine for `and` halves both operands, calls itself, and puts the lowest bit back. -/
theorem and_of_halves (nonzero : a ≠ 0) (nonzero' : b ≠ 0)
    (ih : ∀ c : Configuration, Subroutine program (place + 1) (c.pushAll [a.fdiv 2, b.fdiv 2])
      (c.pushAll [Int.land (a.fdiv 2) (b.fdiv 2)])) (c : Configuration) :
    Subroutine program (place + 1) (c.pushAll [a, b]) (c.pushAll [Int.land a b]) := by
  intro back
  have tested := tests copy 19 19 rfl rfl (c.called back) a b
  rw [if_neg nonzero, if_neg nonzero'] at tested
  calc
    Reaches program _ _ := tested
    Reaches program _ (((c.called back).pushAll [a, b, a.fmod 2 * b.fmod 2]).runningAt (place + 12)) :=
      copy.straight 5 [.stack (.copy 1), pushOf 2, .arithmetic .modulo, .stack (.copy 1), pushOf 2,
        .arithmetic .modulo, .arithmetic .multiply] rfl rfl (by simp)
    Reaches program _ ((c.pushAll [Int.land a b]).runningAt back) := by
      rw [← land_halves a b]
      exact halves (copy.drop 12) (copy.marked (d := 0) rfl) ih c

theorem subroutine_and (mixed : 0 ≤ a ∨ 0 ≤ b) : ∀ c : Configuration,
    Subroutine program (place + 1) (c.pushAll [a, b]) (c.pushAll [Int.land a b]) :=
  halves_induction (fun _ _ => and_of_zero copy) (fun _ _ => and_of_halves copy) mixed

end

section

variable (copy : CopyAt program address place (Library.orStatements.flatMap Statement.symbolic))

include copy

/-- The routine for `or` answers the other operand at once when one is 0. -/
theorem or_of_zero (zero : a = 0 ∨ b = 0) (c : Configuration) :
    Subroutine program (place + 1) (c.pushAll [a, b]) (c.pushAll [Int.lor a b]) := by
  intro back
  have tested := tests copy 23 26 rfl rfl (c.called back) a b
  by_cases first : a = 0
  · subst first
    rw [if_pos rfl] at tested
    rw [lor_zero_left]
    calc
      Reaches program _ _ := tested
      Reaches program _ (((c.called back).pushAll [b]).runningAt (place + 30)) :=
        copy.straight 29 [.stack (.slide 1)] rfl rfl (by simp)
      Reaches program _ ((c.pushAll [b]).runningAt back) := copy.leave (c := c.pushAll [b]) 30 rfl
  · obtain rfl := zero.resolve_left first
    rw [if_neg first, if_pos rfl] at tested
    rw [lor_zero_right]
    calc
      Reaches program _ _ := tested
      Reaches program _ (((c.called back).pushAll [a]).runningAt (place + 33)) :=
        copy.straight 32 [.stack .discard] rfl rfl (by simp)
      Reaches program _ ((c.pushAll [a]).runningAt back) := copy.leave (c := c.pushAll [a]) 33 rfl

/-- The routine for `or` halves both operands, calls itself, and puts the lowest bit back. -/
theorem or_of_halves (nonzero : a ≠ 0) (nonzero' : b ≠ 0)
    (ih : ∀ c : Configuration, Subroutine program (place + 1) (c.pushAll [a.fdiv 2, b.fdiv 2])
      (c.pushAll [Int.lor (a.fdiv 2) (b.fdiv 2)])) (c : Configuration) :
    Subroutine program (place + 1) (c.pushAll [a, b]) (c.pushAll [Int.lor a b]) := by
  intro back
  have tested := tests copy 23 26 rfl rfl (c.called back) a b
  rw [if_neg nonzero, if_neg nonzero'] at tested
  calc
    Reaches program _ _ := tested
    Reaches program _
        (((c.called back).pushAll [a, b, (a.fmod 2 + b.fmod 2 + 1).fdiv 2]).runningAt (place + 16)) :=
      copy.straight 5 [.stack (.copy 1), pushOf 2, .arithmetic .modulo, .stack (.copy 1), pushOf 2,
        .arithmetic .modulo, .arithmetic .add, pushOf 1, .arithmetic .add, pushOf 2, .arithmetic .divide]
        rfl rfl (by simp)
    Reaches program _ ((c.pushAll [Int.lor a b]).runningAt back) := by
      rw [← lor_halves a b]
      exact halves (copy.drop 16) (copy.marked (d := 0) rfl) ih c

theorem subroutine_or (mixed : 0 ≤ a ∨ 0 ≤ b) : ∀ c : Configuration,
    Subroutine program (place + 1) (c.pushAll [a, b]) (c.pushAll [Int.lor a b]) :=
  halves_induction (fun _ _ => or_of_zero copy) (fun _ _ => or_of_halves copy) mixed

end

/-- The routine for `not` answers the complement. -/
theorem subroutine_not (copy : CopyAt program address place (Library.notStatements.flatMap Statement.symbolic))
    (n : Int) (c : Configuration) :
    Subroutine program (place + 1) (c.pushAll [n]) (c.pushAll [Int.lnot n]) := by
  have value : Int.lnot n = n * -1 - 1 := by
    rw [← bitComplement_eq_lnot, bitComplement_eq]
    omega
  rw [value]
  exact CopyAt.subroutine_straight [pushOf (-1), .arithmetic .multiply, pushOf 1, .arithmetic .subtract] copy
    (by simp)

end

/-! ### The two variants -/

namespace LogicCall

variable {program : Program} {address : Reference → Label} {place : Nat} {call : LogicCall}

/-- Each of the portable routines replaces its operands by its result and returns. -/
theorem subroutine_plain (copy : CopyAt program address place (call.routine {})) (mixed : call.Mixed)
    (c : Configuration) : Subroutine program (place + 1) (c.pushAll call.operands) (c.pushAll [call.result]) := by
  rw [routine_plain] at copy
  cases call with
  | and a b => exact subroutine_and copy mixed c
  | or a b => exact subroutine_or copy mixed c
  | not n => exact subroutine_not copy n c

theorem subroutine_extended (copy : CopyAt program address place (call.routine .extended)) (c : Configuration) :
    Subroutine program (place + 1) (c.pushAll call.operands) (c.pushAll [call.result]) := by
  rw [routine_extended] at copy
  apply CopyAt.subroutine_straight [.arithmetic call.command] copy
  cases call <;> simp [operands, command, result, bitAnd_eq_land, bitOr_eq_lor, bitComplement_eq_lnot]

end LogicCall

/-- Both variants of the library agree. A machine that calls a routine, in a program that holds a copy of the
    code of the routine, gets back with the result in the place of the operands and all else as it was: the
    variant without the extensions for operands that are not both negative, and the one with them for all. -/
theorem bitwise_variants_agree (call : LogicCall) {program program' : Program}
    {address address' : Reference → Label} {place place' : Nat}
    (plain : CopyAt program address place (call.routine {}))
    (extended : CopyAt program' address' place' (call.routine .extended)) (m : Machine) (rest : Machine.Stack) :
    (call.Mixed → m.Calling program (address (.named call.name)) call.operands rest →
      m.Returns program { m.configuration with stack := rest.push call.result }) ∧
    (m.Calling program' (address' (.named call.name)) call.operands rest →
      m.Returns program' { m.configuration with stack := rest.push call.result }) := by
  constructor
  · intro mixed calling
    have target := plain.marked (d := 0) call.routine_plain_head
    exact Subroutine.returns calling target (LogicCall.subroutine_plain plain mixed _)
  · intro calling
    have target := extended.marked (d := 0) call.routine_extended_head
    exact Subroutine.returns calling target (LogicCall.subroutine_extended extended _)

/-- A call of a routine for a number that is not negative and one that is, in a program with either variant. -/
theorem bitwise_variants_agree_and :
    let call := LogicCall.and 12 (-10)
    let before : List Statement := [.push 12, .push (-10), .call "and", .plain (.flow .exit)]
    let p : LineProgram := (before ++ (Library.andStatements ++ [])).map some
    let short : List Statement := [.label "and", .arithmetic .and none, .plain (.flow .ret)]
    let p' : LineProgram := (before ++ (short ++ [])).map some
    let m : Machine :=
      { state := { stack := (Machine.Stack.empty.push 12).push (-10), pc := 2 }, input := ⟨.ofText "", []⟩ }
    CopyAt (.ofInstructions p.code) (p.address 0) 4 (call.routine {}) ∧
      CopyAt (.ofInstructions p'.code) (p'.address 0) 4 (call.routine .extended) ∧ call.Mixed ∧
      m.Calling (.ofInstructions p.code) (p.address 0 (.named "and")) call.operands .empty ∧
      m.Calling (.ofInstructions p'.code) (p'.address 0 (.named "and")) call.operands .empty ∧
      m.Returns (.ofInstructions p.code) { m.configuration with stack := Machine.Stack.empty.push 4 } ∧
      m.Returns (.ofInstructions p'.code) { m.configuration with stack := Machine.Stack.empty.push 4 } := by
  intro call before p short p' m
  have plain : CopyAt (.ofInstructions p.code) (p.address 0) 4 (call.routine {}) := by
    rw [LogicCall.routine_plain]
    exact copyAt_statements rfl (by decide +kernel) (by decide +kernel) (by decide +kernel)
  have extended : CopyAt (.ofInstructions p'.code) (p'.address 0) 4 (call.routine .extended) := by
    rw [LogicCall.routine_extended]
    exact @copyAt_statements p' before short [] rfl (by decide +kernel) (by decide +kernel) (by decide +kernel)
  have mixed : call.Mixed := .inl (by decide)
  have calling : m.Calling (.ofInstructions p.code) (p.address 0 (.named "and")) call.operands .empty :=
    ⟨rfl, by decide +kernel, rfl⟩
  have calling' : m.Calling (.ofInstructions p'.code) (p'.address 0 (.named "and")) call.operands .empty :=
    ⟨rfl, by decide +kernel, rfl⟩
  have value : call.result = 4 := by decide +kernel
  obtain ⟨returns, returns'⟩ := bitwise_variants_agree call plain extended m .empty
  rw [value] at returns returns'
  exact ⟨plain, extended, mixed, calling, calling', returns mixed calling, returns' calling'⟩

end Assembly

end Whitespace

/-
Module: Whitespace.Bitwise
Purpose: Logic on the binary digits of integers of any size. A negative integer has infinitely many
  leading ones, so `-1` is all ones and the complement of `n` is `-n - 1`. Each operation is brought
  back to natural numbers: the digits of `Int.negSucc m` are the inverted digits of `m`.
Main exports: bitAnd, bitOr, bitComplement
-/

namespace Whitespace

/-- The digits of the first number at the places where the second has none. -/
def maskOut (m n : Nat) : Nat := m ^^^ (m &&& n)

/-- The integer whose binary digits are set where those of both integers are. -/
def bitAnd : Int → Int → Int
  | .ofNat m, .ofNat n => .ofNat (m &&& n)
  | .ofNat m, .negSucc n => .ofNat (maskOut m n)
  | .negSucc m, .ofNat n => .ofNat (maskOut n m)
  | .negSucc m, .negSucc n => .negSucc (m ||| n)

/-- The integer whose binary digits are set where those of at least one integer are. -/
def bitOr : Int → Int → Int
  | .ofNat m, .ofNat n => .ofNat (m ||| n)
  | .ofNat m, .negSucc n => .negSucc (maskOut n m)
  | .negSucc m, .ofNat n => .negSucc (maskOut m n)
  | .negSucc m, .negSucc n => .negSucc (m &&& n)

/-- The integer whose binary digits are set where those of the given one are not. -/
def bitComplement : Int → Int
  | .ofNat n => .negSucc n
  | .negSucc n => .ofNat n

/-- The complement has a closed form. -/
theorem bitComplement_eq (n : Int) : bitComplement n = -n - 1 := by
  cases n with
  | ofNat n =>
    change Int.negSucc n = -(n : Int) - 1
    omega
  | negSucc n =>
    change (n : Int) = -Int.negSucc n - 1
    omega

/-- Complementing twice gives the number back. -/
@[simp] theorem bitComplement_bitComplement (n : Int) : bitComplement (bitComplement n) = n := by
  cases n <;> rfl

/-- The rule of De Morgan ties the two operations together. -/
theorem bitComplement_bitAnd (a b : Int) :
    bitComplement (bitAnd a b) = bitOr (bitComplement a) (bitComplement b) := by
  cases a <;> cases b <;> rfl

end Whitespace

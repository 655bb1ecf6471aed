/-
Module: Whitespace.Text.CodeRange
Purpose: Sets of characters written as a list of closed ranges of code points, the form in which
  character properties are tabulated.
Main exports: CodeRange, CodeRange.holds, covers
-/

namespace Whitespace.Text

/-- The first and the last code point of a range, both included. -/
abbrev CodeRange := Nat × Nat

def CodeRange.holds (r : CodeRange) (n : Nat) : Bool :=
  r.1 ≤ n && n ≤ r.2

def covers (ranges : List CodeRange) (n : Nat) : Bool :=
  ranges.any (·.holds n)

end Whitespace.Text

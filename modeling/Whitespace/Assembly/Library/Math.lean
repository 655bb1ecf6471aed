/-
Module: Whitespace.Assembly.Library.Math
Purpose: Absolute value, the smaller and the larger of two numbers, and powers.
Main exports: mathLines
-/

namespace Whitespace.Assembly.Library

/-- The library `math`, line by line. -/
def mathLines : List String :=
  ["; Integer helpers.",
   "jump __math_end",
   "",
   "; ( n -- |n| )",
   "label abs",
   "dup",
   "jumpn __math_abs_negative",
   "ret",
   "label __math_abs_negative",
   "mul -1",
   "ret",
   "",
   "; ( a b -- min )",
   "label min",
   "copy 1",
   "copy 1",
   "sub",
   "jumpn __math_min_first",
   "slide 1",
   "ret",
   "label __math_min_first",
   "pop",
   "ret",
   "",
   "; ( a b -- max )",
   "label max",
   "copy 1",
   "copy 1",
   "sub",
   "jumpn __math_max_second",
   "pop",
   "ret",
   "label __math_max_second",
   "slide 1",
   "ret",
   "",
   "; ( base exponent -- base^exponent ) exponent must not be negative",
   "label pow",
   "push 1",
   "label __math_pow_loop",
   "copy 1",
   "jumpz __math_pow_done",
   "copy 2",
   "mul",
   "swap",
   "sub 1",
   "swap",
   "jump __math_pow_loop",
   "label __math_pow_done",
   "slide 2",
   "ret",
   "",
   "label __math_end"]

end Whitespace.Assembly.Library

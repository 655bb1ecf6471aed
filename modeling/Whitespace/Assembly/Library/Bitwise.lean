/-
Module: Whitespace.Assembly.Library.Bitwise
Purpose: Logic on the binary digits of numbers, once by arithmetic and once by the instructions that the
  extensions add.
Main exports: bitwiseLines, bitwiseExtensionLines
-/

namespace Whitespace.Assembly.Library

/-- The library `bitwise`, line by line. -/
def bitwiseLines : List String :=
  ["; Bitwise operations built from arithmetic.",
   "; and/or expect non-negative operands.",
   "jump __bitwise_end",
   "",
   "; ( a b -- a&b )",
   "label and",
   "copy 1",
   "jumpz __bitwise_and_zero",
   "dup",
   "jumpz __bitwise_and_zero",
   "copy 1",
   "mod 2",
   "copy 1",
   "mod 2",
   "mul",
   "copy 2",
   "div 2",
   "copy 2",
   "div 2",
   "call and",
   "mul 2",
   "add",
   "slide 2",
   "ret",
   "label __bitwise_and_zero",
   "pop",
   "pop",
   "push 0",
   "ret",
   "",
   "; ( a b -- a|b )",
   "label or",
   "copy 1",
   "jumpz __bitwise_or_first_zero",
   "dup",
   "jumpz __bitwise_or_second_zero",
   "copy 1",
   "mod 2",
   "copy 1",
   "mod 2",
   "add",
   "add 1",
   "div 2",
   "copy 2",
   "div 2",
   "copy 2",
   "div 2",
   "call or",
   "mul 2",
   "add",
   "slide 2",
   "ret",
   "label __bitwise_or_first_zero",
   "slide 1",
   "ret",
   "label __bitwise_or_second_zero",
   "pop",
   "ret",
   "",
   "; ( n -- ~n )",
   "label not",
   "mul -1",
   "sub 1",
   "ret",
   "",
   "label __bitwise_end"]

/-- The library `bitwise` for compilations in which the extensions are enabled, line by line. -/
def bitwiseExtensionLines : List String :=
  ["; Bitwise operations mapped onto the extension instructions.",
   "jump __bitwise_end",
   "",
   "; ( a b -- a&b )",
   "label and",
   "and",
   "ret",
   "",
   "; ( a b -- a|b )",
   "label or",
   "or",
   "ret",
   "",
   "; ( n -- ~n )",
   "label not",
   "not",
   "ret",
   "",
   "label __bitwise_end"]

end Whitespace.Assembly.Library

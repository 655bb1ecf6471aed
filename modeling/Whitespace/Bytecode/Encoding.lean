/-
Module: Whitespace.Bytecode.Encoding
Purpose: Write instructions as symbols. The code of an instruction is the symbols of its category, the
  symbols of its command and, where it has an operand, that operand. A number is a sign, its binary
  digits with the highest first, and a line feed; a label has no sign.
Main exports: Instruction.encode, encodeProgram, encodeInteger, encodeNatural
-/
import Whitespace.Instruction
import Whitespace.Bytecode.Symbol

namespace Whitespace

open Whitespace.Symbol in
/-- The symbols that every code of the category starts with. -/
def Category.code : Category → List Symbol
  | .stack => [space]
  | .arithmetic => [tab, space]
  | .heap => [tab, tab]
  | .flow => [lineFeed]
  | .io => [tab, lineFeed]

/-- A binary digit as a symbol: the space is 0 and the tab is 1. -/
def encodeDigit (digit : Nat) : Symbol :=
  if digit = 0 then .space else .tab

/-- The binary digits of a natural number, the highest first, in front of other digits. -/
def digitsOnto (n : Nat) (digits : List Nat) : List Nat :=
  if n < 2 then n :: digits else digitsOnto (n / 2) (n % 2 :: digits)

/-- The binary digits of a natural number, the highest first; 0 has the single digit 0. -/
def binaryDigits (n : Nat) : List Nat := digitsOnto n []

/-- Digits at the end take no part in writing a number in front of them. -/
theorem digitsOnto_append (n : Nat) (digits more : List Nat) :
    digitsOnto n (digits ++ more) = digitsOnto n digits ++ more := by
  fun_induction digitsOnto n digits with
  | case1 n digits h => rw [digitsOnto, if_pos h]; rfl
  | case2 n digits h ih => rw [digitsOnto, if_neg h]; exact ih

/-- The digits of a number below two are the number itself; the last digit of any other is its
    remainder. -/
theorem binaryDigits_eq (n : Nat) :
    binaryDigits n = if n < 2 then [n] else binaryDigits (n / 2) ++ [n % 2] := by
  unfold binaryDigits
  conv => lhs; rw [digitsOnto]
  split
  · rfl
  · exact digitsOnto_append (n / 2) [] [n % 2]

/-- A natural number: its binary digits and a line feed. -/
def encodeNatural (n : Nat) : List Symbol :=
  (binaryDigits n).map encodeDigit ++ [.lineFeed]

/-- An integer: a space for a sign when it is not negative, else a tab, and then its magnitude. -/
def encodeInteger (n : Int) : List Symbol :=
  (if n < 0 then .tab else .space) :: encodeNatural n.natAbs

open Whitespace.Symbol in
/-- The symbols of a stack command and its operand. -/
def StackCommand.code : StackCommand → List Symbol
  | .push value => space :: encodeInteger value
  | .duplicate => [lineFeed, space]
  | .copy index => tab :: space :: encodeInteger index
  | .swap => [lineFeed, tab]
  | .discard => [lineFeed, lineFeed]
  | .slide count => tab :: lineFeed :: encodeInteger count

open Whitespace.Symbol in
/-- The symbols of an arithmetic command. -/
def ArithmeticCommand.code : ArithmeticCommand → List Symbol
  | .add => [space, space]
  | .subtract => [space, tab]
  | .multiply => [space, lineFeed]
  | .divide => [tab, space]
  | .modulo => [tab, tab]
  | .and => [lineFeed, lineFeed]
  | .or => [lineFeed, space]
  | .complement => [lineFeed, tab]

open Whitespace.Symbol in
def HeapCommand.code : HeapCommand → List Symbol
  | .store => [space]
  | .retrieve => [tab]

open Whitespace.Symbol in
/-- The symbols of a flow command and its label. -/
def FlowCommand.code : FlowCommand → List Symbol
  | .mark l => space :: space :: encodeNatural l.number
  | .call l => space :: tab :: encodeNatural l.number
  | .jump l => space :: lineFeed :: encodeNatural l.number
  | .jumpZero l => tab :: space :: encodeNatural l.number
  | .jumpNegative l => tab :: tab :: encodeNatural l.number
  | .ret => [tab, lineFeed]
  | .exit => [lineFeed, lineFeed]
  | .breakpoint => [lineFeed, space]

open Whitespace.Symbol in
/-- The symbols of an input or output command. -/
def PortCommand.code : PortCommand → List Symbol
  | .writeCharacter => [space, space]
  | .writeNumber => [space, tab]
  | .readCharacter => [tab, space]
  | .readNumber => [tab, tab]

namespace Instruction

/-- The symbols of the command without those of its category. -/
def commandCode : Instruction → List Symbol
  | .stack command => command.code
  | .arithmetic command => command.code
  | .heap command => command.code
  | .flow command => command.code
  | .io command => command.code

def encode (i : Instruction) : List Symbol :=
  i.category.code ++ i.commandCode

end Instruction

/-- The code of a program: the codes of its instructions one after another. -/
def encodeProgram (program : List Instruction) : List Symbol :=
  program.flatMap Instruction.encode

end Whitespace

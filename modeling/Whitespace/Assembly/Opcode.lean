/-
Module: Whitespace.Assembly.Opcode
Purpose: The opcodes of the assembly language: their names, the arguments they want, and those that
  only the extensions have.
Main exports: Condition, Opcode, Opcode.ofName?, Opcode.shape, Opcode.needsExtensions
-/
import Whitespace.Assembly.Error

namespace Whitespace.Assembly

/-- What a jump asks of the value it takes off the stack. -/
inductive Condition where
  /-- Nothing; no value is taken. -/
  | always
  | zero
  | negative
  | positive
  | notPositive
  | notNegative
  | notZero
deriving Repr, DecidableEq

/-- The opcodes. -/
inductive Opcode where
  | push
  | copy
  | slide
  /-- An arithmetic instruction, whose right operand may be given. -/
  | arithmetic (command : ArithmeticCommand)
  | store
  | retrieve
  | storeString
  | label
  | call
  | jump (condition : Condition)
  | defineInteger
  | defineString
  /-- An instruction without arguments. -/
  | plain (instruction : Instruction)
deriving Repr, DecidableEq

namespace Opcode

/-- The opcode with a name in lower case. -/
def ofName? (name : String) : Option Opcode :=
  match name with
  | "push" => some .push
  | "copy" => some .copy
  | "slide" => some .slide
  | "add" => some (.arithmetic .add)
  | "sub" => some (.arithmetic .subtract)
  | "mul" => some (.arithmetic .multiply)
  | "div" => some (.arithmetic .divide)
  | "mod" => some (.arithmetic .modulo)
  | "and" => some (.arithmetic .and)
  | "or" => some (.arithmetic .or)
  | "not" => some (.plain (.arithmetic .complement))
  | "store" => some .store
  | "retrieve" => some .retrieve
  | "storestr" => some .storeString
  | "label" => some .label
  | "call" => some .call
  | "jump" => some (.jump .always)
  | "jumpz" => some (.jump .zero)
  | "jumpn" => some (.jump .negative)
  | "jumpp" => some (.jump .positive)
  | "jumpnz" => some (.jump .notPositive)
  | "jumppz" => some (.jump .notNegative)
  | "jumppn" | "jumpnp" => some (.jump .notZero)
  | "valueinteger" => some .defineInteger
  | "valuestring" => some .defineString
  | "dup" => some (.plain (.stack .duplicate))
  | "swap" => some (.plain (.stack .swap))
  | "pop" => some (.plain (.stack .discard))
  | "ret" => some (.plain (.flow .ret))
  | "exit" => some (.plain (.flow .exit))
  | "debugger" => some (.plain (.flow .breakpoint))
  | "outn" => some (.plain (.io .writeNumber))
  | "outc" => some (.plain (.io .writeCharacter))
  | "readn" => some (.plain (.io .readNumber))
  | "readc" => some (.plain (.io .readCharacter))
  | _ => none

/-- The arguments that an opcode wants. -/
def shape : Opcode → Shape
  | .push => .integer
  | .copy | .slide => .index
  | .arithmetic _ | .store | .retrieve => .optionalInteger
  | .storeString => .string
  | .label | .call | .jump _ => .label
  | .defineInteger => .variableAndInteger
  | .defineString => .variableAndString
  | .plain _ => .nothing

def needsExtensions : Opcode → Bool
  | .arithmetic .and | .arithmetic .or => true
  | .plain (.arithmetic .complement) | .plain (.flow .breakpoint) => true
  | _ => false

end Opcode

end Whitespace.Assembly

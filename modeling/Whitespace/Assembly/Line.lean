/-
Module: Whitespace.Assembly.Line
Purpose: A line of assembly with its tokens and the place it comes from.
Main exports: Line, Line.opcode?, Line.arguments, Line.labelName?
-/
import Whitespace.Assembly.Token
import Whitespace.Text.LowerCase

namespace Whitespace.Assembly

/-- The tokens of a line, and the name of the source and the number of the line they come from. -/
structure Line where
  source : String
  number : Nat
  tokens : List Token
deriving Repr, DecidableEq

namespace Line

/-- The opcode in lower case, when the line starts with a word. -/
def opcode? (l : Line) : Option String :=
  match l.tokens with
  | .word name :: _ => some (Text.lowerText name)
  | _ => none

def arguments (l : Line) : List Token := l.tokens.tail

/-- The name that the first argument gives, when it is a word or a variable. Labels are called by
    such names. -/
def labelName? (l : Line) : Option String :=
  match l.arguments with
  | .word name :: _ | .variable name :: _ => some name
  | _ => none

end Line

end Whitespace.Assembly

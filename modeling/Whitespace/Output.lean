/-
Module: Whitespace.Output
Purpose: The output of a program: the pieces that were written, in order, and how many of them have
  been handed out already.
Main exports: Output, Output.writeCharacter, Output.writeNumber, Output.pieces, Output.text,
  Output.take
-/

namespace Whitespace

/-- The pieces that were written, the newest first, and the number of the newest ones that have not
    been handed out yet. -/
structure Output where
  written : List String := []
  fresh : Nat := 0
deriving Repr, DecidableEq, Inhabited

namespace Output

def write (o : Output) (piece : String) : Output := ⟨piece :: o.written, o.fresh + 1⟩

def writeCharacter (o : Output) (c : Char) : Output := o.write (String.singleton c)

/-- Writes a number in decimal digits, with a minus sign when it is negative. -/
def writeNumber (o : Output) (n : Int) : Output := o.write (toString n)

/-- The pieces that were written, the oldest first. -/
def pieces (o : Output) : List String := o.written.reverse

def text (o : Output) : String := String.join o.pieces

/-- What was written since the last time, and the output with that handed out. -/
def take (o : Output) : String × Output :=
  (String.join (o.written.take o.fresh).reverse, { o with fresh := 0 })

end Output

end Whitespace

/-
Module: Whitespace.Bytecode.Cursor
Purpose: Read a program text one instruction at a time. A cursor gives the next instruction each time it is
  asked. In the place of the first one that cannot be read it gives the fault of the text, and from then
  on, as after the last instruction, it gives nothing.
Main exports: Cursor, Cursor.ofText, Cursor.next, Cursor.item?, Parsed.items
-/
import Whitespace.Bytecode.Parser

namespace Whitespace

/-- A text that is being read. -/
structure Cursor where
  /-- The length of the whole text. -/
  stop : Nat
  /-- The marks that were not read yet. -/
  marks : List Mark
  /-- Has the text come to its end or to a fault? -/
  done : Bool := false
deriving Repr, DecidableEq

namespace Cursor

def ofText (text : String) : Cursor where
  stop := byteLength text.toList
  marks := scan 0 text.toList

/-- The next instruction, or the fault in its place, or nothing, and the text after it. -/
def next (c : Cursor) : Option (Except ParseError Instruction) × Cursor :=
  if c.done then (none, c)
  else
    match c.marks with
    | [] => (none, { c with done := true })
    | m :: rest =>
      match readInstruction c.stop m.symbol rest with
      | .ok (i, left) => (some (.ok i), { c with marks := left })
      | .error e => (some (.error e), { c with done := true })

/-- What the cursor gives when it is asked once more after `n` times. -/
def item? (c : Cursor) : Nat → Option (Except ParseError Instruction)
  | 0 => c.next.1
  | n + 1 => c.next.2.item? n

end Cursor

/-- The instructions before the first fault, and that fault. -/
def Parsed.items (p : Parsed) : List (Except ParseError Instruction) :=
  p.instructions.map .ok ++ p.error?.toList.map .error

end Whitespace

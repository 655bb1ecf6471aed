/-
Module: Whitespace.Input.Port
Purpose: Read characters and numbers from a source. The port keeps the text that the source has handed
  over and no read has taken yet. A read that has to wait takes nothing, so it can be tried again once
  there is more text.
Main exports: Input.Error, Port, Outcome, Port.readCharacter, Port.readNumber
-/
import Whitespace.Input.Source
import Whitespace.Text.Quoted

namespace Whitespace.Input

/-- Why a read fails. -/
inductive Error where
  /-- The input has ended. -/
  | exhausted
  /-- A number holds a character that is no digit; the text goes up to that character. -/
  | malformed (text : String)
  /-- The read was called off while it waited. -/
  | cancelled
deriving Repr, DecidableEq

def Error.message : Error → String
  | .exhausted => "end of input"
  | .malformed text => "expected number, got " ++ Text.quoted text
  | .cancelled => "pending input was cancelled"

/-- What trying a read gives: a value, a failure, or the need to wait for more text. -/
inductive Outcome (α : Type) where
  | value (a : α)
  | failed (e : Error)
  | waiting
deriving Repr, DecidableEq

/-- A source and the text it has handed over that no read has taken yet. -/
structure Port where
  source : Source
  buffer : List Char := []
deriving Repr, DecidableEq

/-- What asking the source for more text gives. -/
inductive Refill where
  | filled
  | failed (e : Error)
  | waiting
deriving Repr, DecidableEq

def isDelimiter (c : Char) : Bool :=
  c = ' ' || c = '\t' || c = '\n'

/-- The number that decimal digits denote; no digits denote 0. -/
def digitsValue (digits : List Char) : Nat :=
  digits.foldl (fun n c => 10 * n + (c.toNat - '0'.toNat)) 0

/-- What the text kept by a port starts with. -/
inductive NumberScan where
  /-- Digits and the delimiter after them, both taken off. -/
  | complete (digits rest : List Char)
  /-- Digits and a character that cannot stand in a number. -/
  | malformed (text : List Char)
  /-- Nothing but digits. -/
  | unfinished
deriving Repr, DecidableEq

/-- Looks for a number and its delimiter at the front of a text. -/
def scanNumber (text : List Char) : NumberScan :=
  let digits := text.takeWhile Char.isDigit
  match text.dropWhile Char.isDigit with
  | [] => .unfinished
  | c :: rest => if isDelimiter c then .complete digits rest else .malformed (digits ++ [c])

namespace Port

def clear (p : Port) : Port := { p with buffer := [] }

/-- The read under way, if there is one, is dropped. Text in the buffer stays. -/
def abandon (p : Port) : Port := { p with source := p.source.mapFeed Feed.abandon }

/-- Asks the source for a batch and keeps it. -/
def refill (p : Port) : Refill × Port :=
  match p.source.request with
  | (.waiting, source) => (.waiting, { p with source })
  | (.cancelled, source) => (.failed .cancelled, { p with source })
  | (.batch text, source) =>
    if text = "" then (.failed .exhausted, { p with source })
    else (.filled, { source, buffer := p.buffer ++ text.toList })

/-- A port that could be filled has fewer batches to come. -/
theorem supply_refill {p p' : Port} (h : p.refill = (.filled, p')) :
    p'.source.supply < p.source.supply := by
  unfold refill at h
  split at h
  · simp at h
  · simp at h
  · next text source hr =>
    split at h
    · simp at h
    · next ht =>
      simp only [Prod.mk.injEq, true_and] at h
      rw [← h]
      exact Source.supply_request hr ht

/-- Takes one character. -/
def readCharacter (p : Port) : Outcome Char × Port :=
  match p.buffer with
  | c :: rest => (.value c, { p with buffer := rest })
  | [] =>
    match p.refill with
    | (.waiting, p') => (.waiting, p')
    | (.failed e, p') => (.failed e, p')
    | (.filled, p') =>
      match p'.buffer with
      | c :: rest => (.value c, { p' with buffer := rest })
      | [] => (.failed .exhausted, p')

/-- Takes a decimal number without a sign and the space, tab or line feed that ends it. A delimiter
    alone is read as 0. Text that is no number is forgotten, with all that the port keeps. -/
def readNumber (p : Port) : Outcome Int × Port :=
  match scanNumber p.buffer with
  | .complete digits rest => (.value (digitsValue digits), { p with buffer := rest })
  | .malformed text => (.failed (.malformed (String.ofList text)), p.clear)
  | .unfinished =>
    match h : p.refill with
    | (.waiting, p') => (.waiting, p')
    | (.failed e, p') => (.failed e, p')
    | (.filled, p') =>
      have := supply_refill h
      readNumber p'
termination_by p.source.supply

end Port

end Whitespace.Input

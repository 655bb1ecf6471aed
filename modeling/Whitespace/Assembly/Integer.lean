/-
Module: Whitespace.Assembly.Integer
Purpose: Integers as they are written in assembly: decimal digits after an optional sign, or digits of
  another radix after `0x`, `0o` or `0b`, and then without a sign. Underscores may stand anywhere and
  count for nothing.
Main exports: digitValue?, naturalOf?, integerOf?
-/

namespace Whitespace.Assembly

/-- The value of a digit in a radix of at most 36, letters of both cases being digits from 10 on. -/
def digitValue? (radix : Nat) (c : Char) : Option Nat :=
  let value? :=
    if '0' ≤ c ∧ c ≤ '9' then some (c.toNat - '0'.toNat)
    else if 'a' ≤ c ∧ c ≤ 'z' then some (c.toNat - 'a'.toNat + 10)
    else if 'A' ≤ c ∧ c ≤ 'Z' then some (c.toNat - 'A'.toNat + 10)
    else none
  value?.filter (· < radix)

/-- The number that digits denote when they follow digits that denote `value`. -/
def appendDigits (radix : Nat) : Nat → List Char → Option Nat
  | value, [] => some value
  | value, c :: rest =>
    match digitValue? radix c with
    | some d => appendDigits radix (radix * value + d) rest
    | none => none

/-- The number that at least one digit and nothing but digits denote. -/
def naturalOf? (radix : Nat) (digits : List Char) : Option Nat :=
  if digits.isEmpty then none else appendDigits radix 0 digits

/-- The radix that a letter after a zero announces. -/
def radixOf? (c : Char) : Option Nat :=
  if c = 'x' ∨ c = 'X' then some 16
  else if c = 'o' ∨ c = 'O' then some 8
  else if c = 'b' ∨ c = 'B' then some 2
  else none

/-- The integer that a text without underscores denotes. -/
def plainIntegerOf? : List Char → Option Int
  | '-' :: digits => (naturalOf? 10 digits).map fun n => -Int.ofNat n
  | '+' :: digits => (naturalOf? 10 digits).map Int.ofNat
  | '0' :: c :: digits =>
    match radixOf? c with
    | some radix => (naturalOf? radix digits).map Int.ofNat
    | none => (naturalOf? 10 ('0' :: c :: digits)).map Int.ofNat
  | digits => (naturalOf? 10 digits).map Int.ofNat

/-- The integer that a text denotes, if it is written as one. -/
def integerOf? (text : List Char) : Option Int :=
  plainIntegerOf? (text.filter (· ≠ '_'))

end Whitespace.Assembly

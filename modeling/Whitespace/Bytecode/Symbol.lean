/-
Module: Whitespace.Bytecode.Symbol
Purpose: The alphabet of encoded programs. Three characters count, the space, the tab and the line
  feed; every other character of a program text is a comment, wherever it stands. `scan` picks the
  symbols out of a text and keeps, for each, the number of bytes of the text up to and including it.
Main exports: Symbol, Symbol.toChar, Symbol.ofChar?, symbols, Mark, scan
-/

namespace Whitespace

/-- One of the three characters with a meaning. -/
inductive Symbol where
  | space
  | tab
  | lineFeed
deriving Repr, DecidableEq, Inhabited

namespace Symbol

def toChar : Symbol → Char
  | .space => ' '
  | .tab => '\t'
  | .lineFeed => '\n'

/-- The symbol that a character is, if it is one. -/
def ofChar? (c : Char) : Option Symbol :=
  if c = ' ' then some .space
  else if c = '\t' then some .tab
  else if c = '\n' then some .lineFeed
  else none

/-- The letter that stands for a symbol where the symbol itself would not be seen. -/
def letter : Symbol → Char
  | .space => 'S'
  | .tab => 'T'
  | .lineFeed => 'N'

@[simp] theorem ofChar?_toChar (s : Symbol) : ofChar? s.toChar = some s := by
  cases s <;> rfl

end Symbol

/-- The symbols of a text, comments left out. -/
def symbols (text : List Char) : List Symbol :=
  text.filterMap Symbol.ofChar?

/-- The text that consists of the symbols alone. -/
def spell (code : List Symbol) : List Char :=
  code.map Symbol.toChar

def letters (code : List Symbol) : String :=
  String.ofList (code.map Symbol.letter)

/-- Code that is spelled out is read back symbol by symbol. -/
@[simp] theorem symbols_spell (code : List Symbol) : symbols (spell code) = code := by
  induction code with
  | nil => rfl
  | cons s rest ih =>
    have head : symbols (spell (s :: rest)) = s :: symbols (spell rest) := by
      simp only [symbols, spell, List.map_cons, List.filterMap_cons, Symbol.ofChar?_toChar]
    rw [head, ih]

/-- A symbol together with the place in the text just after it, counted in bytes. -/
structure Mark where
  symbol : Symbol
  stop : Nat
deriving Repr, DecidableEq

/-- The symbols of a text that starts at a byte offset, each with the place just after it. -/
def scan : Nat → List Char → List Mark
  | _, [] => []
  | start, c :: rest =>
    let stop := start + c.utf8Size
    match Symbol.ofChar? c with
    | some s => ⟨s, stop⟩ :: scan stop rest
    | none => scan stop rest

def byteLength : List Char → Nat
  | [] => 0
  | c :: rest => c.utf8Size + byteLength rest

/-- Scanning finds exactly the symbols of the text. -/
theorem map_symbol_scan (start : Nat) (text : List Char) :
    (scan start text).map Mark.symbol = symbols text := by
  induction text generalizing start with
  | nil => rfl
  | cons c rest ih =>
    simp only [scan, symbols, List.filterMap_cons]
    cases Symbol.ofChar? c with
    | none => exact ih _
    | some s => exact congrArg (s :: ·) (ih _)

end Whitespace

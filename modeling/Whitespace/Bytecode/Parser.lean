/-
Module: Whitespace.Bytecode.Parser
Purpose: Read a program text back into instructions. The symbols of the text are read from left to
  right: those of a category, those of one of its commands, and the operand that the command wants.
  A text that is not a program is refused at its first fault, with the number of bytes read by then.
Main exports: ParseCause, ParseError, readInstruction, parseMarks, scanProgram, parseProgram
-/
import Whitespace.Bytecode.Encoding

namespace Whitespace

/-- Why a text is not a program. -/
inductive ParseCause where
  /-- The text ends after a lone tab, which starts three categories. -/
  | unknownCategory
  /-- The category has no command with these symbols. -/
  | unknownCommand (category : Category) (code : List Symbol)
  /-- The text ends before the command is complete. -/
  | unexpectedEnd (category : Category)
  /-- A number starts with a line feed. -/
  | missingSign
  /-- The text ends before the line feed of an operand. -/
  | unterminatedNumber
deriving Repr, DecidableEq

/-- The fault of a text and the number of bytes up to and including the offending symbol. -/
structure ParseError where
  position : Nat
  cause : ParseCause
deriving Repr, DecidableEq

/-- What is wrong, in words. -/
def ParseCause.message : ParseCause → String
  | .unknownCategory => "unable to parse IMP: " ++ letters [.tab]
  | .unknownCommand category code => s!"unknown {category.name} command: {letters code}"
  | .unexpectedEnd category => s!"program ended inside a {category.name} instruction"
  | .missingSign => "expected a sign (space or tab) but got a line feed"
  | .unterminatedNumber => "program ended without terminating number"

def ParseError.message (e : ParseError) : String :=
  s!"{e.cause.message} (at position {e.position})"

/-- What reading a part of a program gives: the part and the marks after it. -/
abbrev Reading (α : Type) := Except ParseError (α × List Mark)

/-- Binary digits up to the closing line feed, appended to the digits already read. `stop` is the
    length of the whole text. -/
def readBits (stop : Nat) : Nat → List Mark → Reading Nat
  | _, [] => .error ⟨stop, .unterminatedNumber⟩
  | value, m :: rest =>
    match m.symbol with
    | .lineFeed => .ok (value, rest)
    | .space => readBits stop (2 * value) rest
    | .tab => readBits stop (2 * value + 1) rest

/-- A sign and a magnitude. A negative zero is zero. -/
def readInteger (stop : Nat) : List Mark → Reading Int
  | [] => .error ⟨stop, .unterminatedNumber⟩
  | m :: rest =>
    match m.symbol with
    | .space => (readBits stop 0 rest).map fun (n, left) => (Int.ofNat n, left)
    | .tab => (readBits stop 0 rest).map fun (n, left) => (-Int.ofNat n, left)
    | .lineFeed => .error ⟨m.stop, .missingSign⟩

/-- A command whose own symbols are known, with the operand that it still wants. -/
inductive Template where
  | complete (instruction : Instruction)
  | integer (build : Int → StackCommand)
  | label (build : Label → FlowCommand)

/-- The instruction that a template becomes once its operand is read. -/
def Template.read (stop : Nat) (marks : List Mark) : Template → Reading Instruction
  | .complete i => .ok (i, marks)
  | .integer build => (readInteger stop marks).map fun (n, left) => (.stack (build n), left)
  | .label build => (readBits stop 0 marks).map fun (n, left) => (.flow (build ⟨n⟩), left)

/-- What the symbols of a command read so far amount to. -/
inductive Lookup where
  | known (template : Template)
  | incomplete
  | unknown

/-- The commands of each category by their symbols. -/
def lookup : Category → List Symbol → Lookup
  | .stack, [.space] => .known (.integer .push)
  | .stack, [.lineFeed, .space] => .known (.complete (.stack .duplicate))
  | .stack, [.lineFeed, .tab] => .known (.complete (.stack .swap))
  | .stack, [.lineFeed, .lineFeed] => .known (.complete (.stack .discard))
  | .stack, [.tab, .space] => .known (.integer .copy)
  | .stack, [.tab, .lineFeed] => .known (.integer .slide)
  | .arithmetic, [.space, .space] => .known (.complete (.arithmetic .add))
  | .arithmetic, [.space, .tab] => .known (.complete (.arithmetic .subtract))
  | .arithmetic, [.space, .lineFeed] => .known (.complete (.arithmetic .multiply))
  | .arithmetic, [.tab, .space] => .known (.complete (.arithmetic .divide))
  | .arithmetic, [.tab, .tab] => .known (.complete (.arithmetic .modulo))
  | .arithmetic, [.lineFeed, .lineFeed] => .known (.complete (.arithmetic .and))
  | .arithmetic, [.lineFeed, .space] => .known (.complete (.arithmetic .or))
  | .arithmetic, [.lineFeed, .tab] => .known (.complete (.arithmetic .complement))
  | .heap, [.space] => .known (.complete (.heap .store))
  | .heap, [.tab] => .known (.complete (.heap .retrieve))
  | .heap, [.lineFeed] => .unknown
  | .flow, [.space, .space] => .known (.label .mark)
  | .flow, [.space, .tab] => .known (.label .call)
  | .flow, [.space, .lineFeed] => .known (.label .jump)
  | .flow, [.tab, .space] => .known (.label .jumpZero)
  | .flow, [.tab, .tab] => .known (.label .jumpNegative)
  | .flow, [.tab, .lineFeed] => .known (.complete (.flow .ret))
  | .flow, [.lineFeed, .lineFeed] => .known (.complete (.flow .exit))
  | .flow, [.lineFeed, .space] => .known (.complete (.flow .breakpoint))
  | .io, [.space, .space] => .known (.complete (.io .writeCharacter))
  | .io, [.space, .tab] => .known (.complete (.io .writeNumber))
  | .io, [.tab, .space] => .known (.complete (.io .readCharacter))
  | .io, [.tab, .tab] => .known (.complete (.io .readNumber))
  | _, [_] => .incomplete
  | _, _ => .unknown

/-- Reads symbols until they make a command of the category, and then its operand. -/
def readCommand (stop : Nat) (category : Category) : List Symbol → List Mark → Reading Instruction
  | _, [] => .error ⟨stop, .unexpectedEnd category⟩
  | code, m :: rest =>
    let code := code ++ [m.symbol]
    match lookup category code with
    | .known template => template.read stop rest
    | .incomplete => readCommand stop category code rest
    | .unknown => .error ⟨m.stop, .unknownCommand category code⟩

/-- Reads the symbols after a tab that settle the category, and the command. -/
def readAfterTab (stop : Nat) : List Mark → Reading Instruction
  | [] => .error ⟨stop, .unknownCategory⟩
  | m :: rest =>
    match m.symbol with
    | .space => readCommand stop .arithmetic [] rest
    | .tab => readCommand stop .heap [] rest
    | .lineFeed => readCommand stop .io [] rest

/-- Reads one instruction whose first symbol is given. -/
def readInstruction (stop : Nat) (first : Symbol) (rest : List Mark) : Reading Instruction :=
  match first with
  | .space => readCommand stop .stack [] rest
  | .tab => readAfterTab stop rest
  | .lineFeed => readCommand stop .flow [] rest

/-! Every reader leaves a part of the marks it is given, so reading a whole program ends. -/

/-- Reading bits never gives marks back. -/
theorem length_le_of_readBits {stop value n : Nat} {marks left : List Mark}
    (h : readBits stop value marks = .ok (n, left)) : left.length ≤ marks.length := by
  induction marks generalizing value with
  | nil => simp [readBits] at h
  | cons m rest ih =>
    unfold readBits at h
    split at h
    · cases h; simp
    · exact Nat.le_succ_of_le (ih h)
    · exact Nat.le_succ_of_le (ih h)

/-- A mapped reading succeeds exactly when the reading itself does. -/
theorem map_eq_ok {ε α β : Type} {r : Except ε α} {f : α → β} {b : β} :
    r.map f = .ok b ↔ ∃ a, r = .ok a ∧ f a = b := by
  cases r <;> simp [Except.map]

/-- Reading an integer never gives marks back. -/
theorem length_le_of_readInteger {stop : Nat} {n : Int} {marks left : List Mark}
    (h : readInteger stop marks = .ok (n, left)) : left.length ≤ marks.length := by
  unfold readInteger at h
  split at h
  · cases h
  · split at h
    · obtain ⟨p, hp, he⟩ := map_eq_ok.1 h
      cases he
      exact Nat.le_succ_of_le (length_le_of_readBits hp)
    · obtain ⟨p, hp, he⟩ := map_eq_ok.1 h
      cases he
      exact Nat.le_succ_of_le (length_le_of_readBits hp)
    · cases h

/-- Reading the operand of a command never gives marks back. -/
theorem length_le_of_templateRead {stop : Nat} {t : Template} {i : Instruction}
    {marks left : List Mark} (h : t.read stop marks = .ok (i, left)) :
    left.length ≤ marks.length := by
  cases t with
  | complete j => cases h; exact Nat.le_refl _
  | integer build =>
    obtain ⟨p, hp, he⟩ := map_eq_ok.1 h
    cases he
    exact length_le_of_readInteger hp
  | label build =>
    obtain ⟨p, hp, he⟩ := map_eq_ok.1 h
    cases he
    exact length_le_of_readBits hp

/-- Reading a command never gives marks back. -/
theorem length_le_of_readCommand {stop : Nat} {category : Category} {code : List Symbol}
    {i : Instruction} {marks left : List Mark}
    (h : readCommand stop category code marks = .ok (i, left)) : left.length ≤ marks.length := by
  induction marks generalizing code with
  | nil => simp [readCommand] at h
  | cons m rest ih =>
    simp only [readCommand] at h
    split at h
    · exact Nat.le_succ_of_le (length_le_of_templateRead h)
    · exact Nat.le_succ_of_le (ih h)
    · cases h

/-- Reading an instruction never gives marks back, so the parser comes to an end. -/
theorem length_le_of_readInstruction {stop : Nat} {first : Symbol} {i : Instruction}
    {marks left : List Mark} (h : readInstruction stop first marks = .ok (i, left)) :
    left.length ≤ marks.length := by
  unfold readInstruction at h
  split at h
  · exact length_le_of_readCommand h
  · unfold readAfterTab at h
    split at h
    · cases h
    · split at h <;> exact Nat.le_succ_of_le (length_le_of_readCommand h)
  · exact length_le_of_readCommand h

/-- The instructions that stand before the first fault of a text, and that fault. -/
structure Parsed where
  instructions : List Instruction
  error? : Option ParseError
deriving Repr, DecidableEq

/-- Reads instructions until the marks end or one cannot be read. -/
def parseMarks (stop : Nat) (marks : List Mark) : Parsed :=
  match marks with
  | [] => ⟨[], none⟩
  | m :: rest =>
    match h : readInstruction stop m.symbol rest with
    | .error e => ⟨[], some e⟩
    | .ok (i, left) =>
      have : left.length < rest.length + 1 :=
        Nat.lt_succ_of_le (length_le_of_readInstruction h)
      let tail := parseMarks stop left
      { tail with instructions := i :: tail.instructions }
termination_by marks.length

/-- The instructions of a text up to its first fault, and that fault. -/
def scanProgram (text : String) : Parsed :=
  parseMarks (byteLength text.toList) (scan 0 text.toList)

/-- The instructions of a text that is a program throughout. -/
def parseProgram (text : String) : Except ParseError (List Instruction) :=
  let parsed := scanProgram text
  match parsed.error? with
  | none => .ok parsed.instructions
  | some e => .error e

end Whitespace

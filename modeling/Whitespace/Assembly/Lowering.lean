/-
Module: Whitespace.Assembly.Lowering
Purpose: Turn lines into instructions. Most statements are one instruction; an operand that is given
  is pushed first, unless it would change nothing; jumps with a condition that the machine does not
  have are put together from those it has. Labels are numbered in the order in which they are met.
Main exports: Lowered, Statement.emit, emitAll, undefinedUse?, lower
-/
import Whitespace.Assembly.Statement

namespace Whitespace.Assembly

/-- A compiled program: its instructions, and the remarks to be carried over, in their order. -/
structure Lowered where
  instructions : List Instruction := []
  decorations : List String := []
deriving Repr, DecidableEq

def pushOf (n : Int) : Instruction := .stack (.push n)

/-- The right operand with which an arithmetic command changes nothing. -/
def neutral? : ArithmeticCommand → Option Int
  | .add | .subtract => some 0
  | .multiply | .divide => some 1
  | .modulo | .and | .or | .complement => none

/-- An arithmetic command whose right operand may be given. -/
def emitArithmetic (command : ArithmeticCommand) : Option Int → List Instruction
  | none => [.arithmetic command]
  | some n => if neutral? command = some n then [] else [pushOf n, .arithmetic command]

/-- Stores one character at the address on top of the stack and moves the address on. -/
def emitCharacter (c : Char) : List Instruction :=
  [.stack .duplicate, pushOf c.toNat, .heap .store, pushOf 1, .arithmetic .add]

/-- Stores a text and a zero after it from the address on top of the stack on, and drops the
    address. -/
def emitString (text : String) : List Instruction :=
  (text.toList ++ ['\x00']).flatMap emitCharacter ++ [.stack .discard]

/-- Jumps over a jump to the label. The label after it belongs to this jump alone. -/
def emitInverted (ls : Labels) (target : Label) (skip : Label → FlowCommand) :
    List Instruction × Labels :=
  let (past, ls) := ls.fresh
  ([.flow (skip past), .flow (.jump target), .flow (.mark past)], ls)

/-- A jump with a condition. The value is positive when `0 - value` is negative, and not positive
    when `value - 1` is negative. -/
def emitJump (ls : Labels) (target : Label) : Condition → List Instruction × Labels
  | .always => ([.flow (.jump target)], ls)
  | .zero => ([.flow (.jumpZero target)], ls)
  | .negative => ([.flow (.jumpNegative target)], ls)
  | .positive =>
    ([pushOf 0, .stack .swap, .arithmetic .subtract, .flow (.jumpNegative target)], ls)
  | .notPositive => ([pushOf 1, .arithmetic .subtract, .flow (.jumpNegative target)], ls)
  | .notNegative => emitInverted ls target .jumpNegative
  | .notZero => emitInverted ls target .jumpZero

/-- The instructions of a statement, and the labels met by then. -/
def Statement.emit (ls : Labels) : Statement → List Instruction × Labels
  | .push n => ([pushOf n], ls)
  | .copy n => ([.stack (.copy n)], ls)
  | .slide n => ([.stack (.slide n)], ls)
  | .arithmetic command n? => (emitArithmetic command n?, ls)
  | .store none => ([.heap .store], ls)
  | .store (some n) => ([pushOf n, .stack .swap, .heap .store], ls)
  | .retrieve none => ([.heap .retrieve], ls)
  | .retrieve (some n) => ([pushOf n, .heap .retrieve], ls)
  | .storeString text => (emitString text, ls)
  | .label name => let (l, ls) := ls.number name; ([.flow (.mark l)], ls)
  | .call name => let (l, ls) := ls.number name; ([.flow (.call l)], ls)
  | .jump condition name => let (l, ls) := ls.number name; emitJump ls l condition
  | .define _ _ => ([], ls)
  | .plain i => ([i], ls)

/-- The instructions of statements one after another, and the labels met by then. -/
def emitAll (ls : Labels) : List Statement → List Instruction × Labels
  | [] => ([], ls)
  | s :: rest =>
    let (instructions, ls) := s.emit ls
    let (more, ls) := emitAll ls rest
    (instructions ++ more, ls)

def Statement.defines? : Statement → Option String
  | .label name => some name
  | _ => none

/-- The label that a statement sends control to. -/
def Statement.uses? : Statement → Option String
  | .call name | .jump _ name => some name
  | _ => none

/-- The first use of a label that no statement defines. -/
def undefinedUse? (statements : List (Line × Statement)) : Option CompileError :=
  let defined := statements.filterMap fun (_, s) => s.defines?
  statements.findSome? fun (l, s) =>
    match s.uses? with
    | some name =>
      if defined.contains name then none else some ⟨l.source, l.number, .undefinedLabel name⟩
    | none => none

def Line.decoration? (l : Line) : Option String :=
  match l.tokens with
  | .decoration text :: _ => some text
  | _ => none

/-- Turns lines into instructions. The context afterwards tells the labels and the variables met by
    then, also when a line is at fault. -/
def lower (ctx : Context) (lines : List Line) : Except CompileError Lowered × Context :=
  let reader := readStatements ctx.options ctx.bindings lines
  let (instructions, labels) := emitAll ctx.labels (reader.statements.map Prod.snd)
  let ctx := { ctx with labels, bindings := reader.bindings }
  match reader.error? with
  | some e => (.error e, ctx)
  | none =>
    match undefinedUse? reader.statements with
    | some e => (.error e, ctx)
    | none => (.ok ⟨instructions, lines.filterMap Line.decoration?⟩, ctx)

end Whitespace.Assembly

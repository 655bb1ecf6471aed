/-
Module: Whitespace.Assembly.Statement
Purpose: The meaning of a line: its opcode together with arguments of the right sort, variables being
  replaced by their values. A definition takes effect for the lines after it.
Main exports: Statement, fitArguments, Statement.ofLine, Reader, readStatements
-/
import Whitespace.Assembly.Line
import Whitespace.Assembly.Opcode

namespace Whitespace.Assembly

/-- What a line asks for. -/
inductive Statement where
  | push (value : Int)
  | copy (index : Int)
  | slide (count : Int)
  | arithmetic (command : ArithmeticCommand) (operand? : Option Int)
  | store (address? : Option Int)
  | retrieve (address? : Option Int)
  | storeString (text : String)
  | label (name : String)
  | call (name : String)
  | jump (condition : Condition) (name : String)
  | define (name : String) (value : Value)
  | plain (instruction : Instruction)
deriving Repr, DecidableEq

/-- The integer that a token stands for, if it is of a sort that can. -/
def integerOfToken (vs : Variables) : Token → Except ArgumentFault (Option Int)
  | .integer value => .ok (some value)
  | .character c => .ok (some c.toNat)
  | .variable name =>
    match vs.value? name with
    | some (.integer value) => .ok (some value)
    | some (.string _) => .error (.notInteger name)
    | none => .error (.undefinedVariable name)
  | _ => .ok none

/-- The string that a token stands for, if it is of a sort that can. -/
def stringOfToken (vs : Variables) : Token → Except ArgumentFault (Option String)
  | .string value | .word value => .ok (some value)
  | .variable name =>
    match vs.value? name with
    | some (.string value) => .ok (some value)
    | some (.integer _) => .error (.notString name)
    | none => .error (.undefinedVariable name)
  | _ => .ok none

def withInteger (vs : Variables) (t : Token) (make : Int → Statement) :
    Except ArgumentFault (Option Statement) :=
  (integerOfToken vs t).map (Option.map make)

def withString (vs : Variables) (t : Token) (make : String → Statement) :
    Except ArgumentFault (Option Statement) :=
  (stringOfToken vs t).map (Option.map make)

/-- The statement of an opcode with its arguments, unless their number or their sorts are wrong. -/
def fitArguments (vs : Variables) : Opcode → List Token → Except ArgumentFault (Option Statement)
  | .push, [t] => withInteger vs t .push
  | .copy, [.character _] | .slide, [.character _] => .ok none
  | .copy, [t] => withInteger vs t .copy
  | .slide, [t] => withInteger vs t .slide
  | .arithmetic command, [] => .ok (some (.arithmetic command none))
  | .arithmetic command, [t] => withInteger vs t fun n => .arithmetic command (some n)
  | .store, [] => .ok (some (.store none))
  | .store, [t] => withInteger vs t fun n => .store (some n)
  | .retrieve, [] => .ok (some (.retrieve none))
  | .retrieve, [t] => withInteger vs t fun n => .retrieve (some n)
  | .storeString, [t] => withString vs t .storeString
  | .label, [.word name] | .label, [.variable name] => .ok (some (.label name))
  | .call, [.word name] | .call, [.variable name] => .ok (some (.call name))
  | .jump condition, [.word name] | .jump condition, [.variable name] =>
    .ok (some (.jump condition name))
  | .defineInteger, [.variable name, t] => withInteger vs t fun n => .define name (.integer n)
  | .defineString, [.variable name, t] => withString vs t fun text => .define name (.string text)
  | .plain i, [] => .ok (some (.plain i))
  | _, _ => .ok none

/-- The statement of a line that starts with a word, given in lower case. -/
def readStatement (options : Options) (vs : Variables) (name : String) (tokens : List Token) :
    Except CompileCause Statement :=
  match Opcode.ofName? name with
  | none => .error (.unknownOpcode name)
  | some opcode =>
    if opcode.needsExtensions && !options.extensions then .error (.extensionNeeded name)
    else
      match fitArguments vs opcode tokens with
      | .error fault => .error (.argument fault)
      | .ok none => .error (.argument (.mismatch opcode.shape (tokens.map Token.kind)))
      | .ok (some s) => .ok s

/-- The statement of a line, or none for a decoration and for a line without tokens. -/
def Statement.ofLine (options : Options) (vs : Variables) (l : Line) :
    Except CompileCause (Option Statement) :=
  match l.tokens with
  | [] | .decoration _ :: _ => .ok none
  | .word name :: tokens => (readStatement options vs (Text.lowerText name) tokens).map some
  | t :: _ => .error (.expectedOpcode t.kind)

/-- The variables after a statement. -/
def Statement.applyTo (vs : Variables) : Statement → Variables
  | .define name value => vs.define name value
  | _ => vs

/-- The statements of lines up to the first line that has none to give, the variables by then, and
    the failure of that line. -/
structure Reader where
  statements : List (Line × Statement)
  bindings : Variables
  error? : Option CompileError
deriving Repr, DecidableEq

/-- Reads the statements of lines one after another. -/
def readStatements (options : Options) (vs : Variables) : List Line → Reader
  | [] => ⟨[], vs, none⟩
  | l :: rest =>
    match Statement.ofLine options vs l with
    | .error cause => ⟨[], vs, some ⟨l.source, l.number, cause⟩⟩
    | .ok none => readStatements options vs rest
    | .ok (some s) =>
      let tail := readStatements options (s.applyTo vs) rest
      { tail with statements := (l, s) :: tail.statements }

end Whitespace.Assembly

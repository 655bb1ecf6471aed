/-
Module: Whitespace.Assembly.Compile
Purpose: From the text of an assembly source to the text of a program: includes are followed, lines
  that control cannot reach are dropped, the rest is lowered and written in symbols, and the remarks
  are put in front of the lines of the program text.
Main exports: decorationText, Lowered.render, lowerSource, compile, compileWithExit, compileWithExit_eq
-/
import Whitespace.Assembly.Expansion
import Whitespace.Assembly.Lowering
import Whitespace.Assembly.Reachability
import Whitespace.Bytecode.Encoding

namespace Whitespace.Assembly

/-- The name under which the source of a compilation is reported. -/
def mainSource : String := "main"

/-- A character of a remark, in a form that holds no symbol: spaces become spaces without a break, two
    for a tab, and line feeds vanish. -/
def decorationChar (c : Char) : List Char :=
  if c = '\t' then ['\u00a0', '\u00a0']
  else if c = ' ' then ['\u00a0']
  else if c = '\n' then []
  else [c]

/-- A remark as it stands in a program text. -/
def decorationText (text : String) : List Char :=
  text.toList.flatMap decorationChar

/-- Puts each remark in front of a line of the text, as long as there are lines. What follows the last
    line feed is a line too, even when it is empty. -/
def decorate : List String → List Char → List Char
  | [], code => code
  | remark :: more, code =>
    decorationText remark ++ code.takeWhile (· ≠ '\n') ++
      match code.dropWhile (· ≠ '\n') with
      | [] => []
      | lineFeed :: rest => lineFeed :: decorate more rest

/-- The text of a compiled program: the i-th line starts with the i-th remark. -/
def Lowered.render (lowered : Lowered) : List Char :=
  decorate lowered.decorations (spell (encodeProgram lowered.instructions))

/-- All that is done to a source but for writing the program in symbols. -/
def lowerSource (catalogue : Catalogue) (ctx : Context) (text : String) :
    Except CompileError Lowered × Context :=
  match expandSource catalogue ctx mainSource text with
  | .error e => (.error e, ctx)
  | .ok (ctx, lines) => lower ctx (reachableLines lines)

/-- Compiles a source. -/
def compile (catalogue : Catalogue) (options : Options) (text : String) :
    Except CompileError String :=
  (lowerSource catalogue { options } text).1.map fun lowered => String.ofList lowered.render

/-- Compiles a source and appends an exit, so that control cannot run off the end. -/
def compileWithExit (catalogue : Catalogue) (options : Options) (text : String) :
    Except CompileError String :=
  (compile catalogue options text).map fun code =>
    code ++ String.ofList (spell (Instruction.flow .exit).encode)

section

variable {catalogue : Catalogue} {options : Options} {text : String} {lowered : Lowered}

/-- The exit follows the rendered program. -/
theorem compileWithExit_eq :
    compileWithExit catalogue options text = (lowerSource catalogue { options } text).1.map fun lowered =>
      String.ofList (lowered.render ++ spell (Instruction.flow .exit).encode) := by
  unfold compileWithExit compile
  cases (lowerSource catalogue { options } text).1 with
  | error e => rfl
  | ok lowered =>
      apply congrArg Except.ok
      exact String.ofList_append.symm

theorem compile_of_lowerSource (lower : (lowerSource catalogue { options } text).1 = .ok lowered) :
    compile catalogue options text = .ok (String.ofList lowered.render) := by
  unfold compile
  rw [lower]
  rfl

theorem compileWithExit_of_lowerSource (lower : (lowerSource catalogue { options } text).1 = .ok lowered) :
    compileWithExit catalogue options text =
      .ok (String.ofList (lowered.render ++ spell (Instruction.flow .exit).encode)) := by
  rw [compileWithExit_eq, lower]
  rfl

end

end Whitespace.Assembly

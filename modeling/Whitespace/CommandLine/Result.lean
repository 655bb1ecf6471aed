/-
Module: Whitespace.CommandLine.Result
Purpose: What the commands of the program do, as functions on a tree of files and the text of the
  standard input: the code with which the program exits, what it prints, and the files afterwards.
Main exports: loadText, inputLines, Result, execute, perform, runCommandLine
-/
import Whitespace.Assembly.Compile
import Whitespace.Assembly.Mention
import Whitespace.Bytecode.Spelling
import Whitespace.CommandLine.Arguments
import Whitespace.Error
import Whitespace.Session.Run
import Whitespace.Text.Lines

namespace Whitespace.CommandLine

/-- The directory in which the includes of a source file are looked up. -/
def includeDirectory (path : String) : String :=
  (Files.parentPath? path).getD "."

/-- Compiles the source file at a path. -/
def assemble (tree : Files.Tree) (path : String) (extensions : Bool) : Except Error String :=
  match tree.readSource path with
  | .error e => .error (.file e)
  | .ok text =>
    let catalogue := Assembly.Catalogue.ofTree tree (includeDirectory path) text
    (Assembly.compileWithExit catalogue { extensions } text).mapError .compile

/-- The program text that a file holds, which may be in the bracketed spelling. -/
def programText (content : String) : String :=
  if isBracketed content then decodeBracketed content else content

/-- The program text to be run. -/
def loadText (tree : Files.Tree) (path : String) (assembly extensions : Bool) :
    Except Error String :=
  if assembly then assemble tree path extensions
  else
    match tree.readSource path with
    | .error e => .error (.file e)
    | .ok content => .ok (programText content)

/-- The lines of a text, each with its line feed. Only the last may lack one. -/
def inputLines (text : String) : List String :=
  let parts := Text.pieces text.toList
  let ended := parts.dropLast.map fun part => String.ofList (part ++ ['\n'])
  match parts.getLast? with
  | none | some [] => ended
  | some last => ended ++ [String.ofList last]

/-- The input of a run: the text given for it, or else the lines of the standard input. -/
def inputSource (input? : Option String) (stdin : String) : Input.Source :=
  match input? with
  | some text => .ofText text
  | none => .ofBatches (inputLines stdin)

/-- How the program ends: its exit code, unless it used up the turns it was given, what it printed,
    and the files afterwards. -/
structure Result where
  exit? : Option Nat
  stdout : String := ""
  files : Files.Tree

/-- Runs a program text until it halts or fails. -/
def execute (turns : Nat) (files : Files.Tree) (text : String) (source : Input.Source) : Result :=
  match Program.ofText text with
  | .error _ => { exit? := some 1, files }
  | .ok program =>
    let (progress, session) := (Session.start program source {}).launch turns .run
    let exit? := match progress with
      | .finished => some 0
      | .failed _ | .waiting _ => some 1
      | .unfinished _ => none
    { exit?, stdout := session.output, files }

/-- Does what a command asks for. -/
def perform (turns : Nat) (files : Files.Tree) (stdin : String) : Command → Result
  | .compile source target extensions annotated =>
    match assemble files source extensions with
    | .error _ => { exit? := some 1, files }
    | .ok text =>
      match files.write target (if annotated then annotate text else text) with
      | .error _ => { exit? := some 1, files }
      | .ok files => { exit? := some 0, files }
  | .run file assembly extensions input? =>
    match loadText files file assembly extensions with
    | .error _ => { exit? := some 1, files }
    | .ok text => execute turns files text (inputSource input? stdin)

def versionText : String := "wsa 0.1.0\n"

/-- How the program is used. -/
def helpText : String :=
  String.join [
    versionText,
    "an assembler and virtual machine for whitespace\n\n",
    "usage: wsa [-v] compile [-e] [-a] MAIN OUTPUT\n",
    "       wsa [-v] run [-s] [-e] [-i INPUT] FILE\n\n",
    "-a, --annotate    put a visible S, T or L before every whitespace character\n",
    "-e, --extensions  enable the bitwise instructions and the debugger marker\n",
    "-i, --input       program input; standard input is read line by line if omitted\n",
    "-s, --asm         treat the file as WSA source and compile it first\n",
    "-v, --verbose     allowed before and after the command; changes nothing in what is written\n"]

/-- Does what the words of a command line ask for. A command line that is not understood has the exit
    code 2. -/
def runCommandLine (turns : Nat) (files : Files.Tree) (stdin : String) (words : List String) :
    Result :=
  match parseArguments words with
  | .perform command => perform turns files stdin command
  | .showHelp => { exit? := some 0, stdout := helpText, files }
  | .showVersion => { exit? := some 0, stdout := versionText, files }
  | .misuse => { exit? := some 2, files }

end Whitespace.CommandLine

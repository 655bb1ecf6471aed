/-
Module: Whitespace.Main
Purpose: The command line program. It reads the files that a command needs, hands their texts to the
  compiler, writes what comes out, and runs programs with the standard input and output, a line of
  input being read whenever the program waits for one.
Main exports: main
-/
import Whitespace.CommandLine.Result

namespace Whitespace.CommandLine

/-- The fault that the system reports for a file that cannot be opened. -/
def openFault : IO.Error → Files.OpenFault
  | .noFileOrDirectory .. => .noSuchFile
  | e => .other (toString e)

/-- Reads a source file. -/
def readSource (path : String) : IO (Except Files.FileError String) := do
  match ← (IO.FS.readBinFile path).toBaseIO with
  | .error e => return .error (.cannotOpen path (openFault e))
  | .ok content =>
    match String.fromUTF8? content with
    | some text => return .ok text
    | none => return .error (.notText path)

/-- Is there a file at a path? -/
def isFile (path : String) : IO Bool := do
  match ← (IO.FS.Handle.mk path .read).toBaseIO with
  | .error _ => return false
  | .ok handle =>
    match ← (handle.read 1).toBaseIO with
    | .error _ => return false
    | .ok _ => return true

def readInclude (directory name : String) : IO (Except Files.FileError String) := do
  let (exact, ended) := Files.includePaths directory name
  readSource (if ← isFile exact then exact else ended)

/-- Compiles a text. A source that the catalogue lacks is read from its file, and then the text is
    compiled once more. -/
partial def assembleText (catalogue : Assembly.Catalogue) (directory : String) (extensions : Bool)
    (text : String) : IO (Except Error String) := do
  match Assembly.compileWithExit catalogue { extensions } text with
  | .ok program => return .ok program
  | .error e =>
    match e.cause with
    | .inclusion name (.unresolved (.notFound _)) =>
      if catalogue.names.contains name then return .error (.compile e)
      else
        let found := (← readInclude directory name).mapError .file
        assembleText ⟨(name, found) :: catalogue.entries⟩ directory extensions text
    | _ => return .error (.compile e)

def assembleFile (path : String) (extensions : Bool) : IO (Except Error String) := do
  match ← readSource path with
  | .error e => return .error (.file e)
  | .ok text => assembleText .empty (includeDirectory path) extensions text

/-- Prints the output that has not been printed yet. -/
def flushOutput (s : Session) : IO Session := do
  let (text, s) := s.takeOutput
  let stdout ← IO.getStdout
  stdout.putStr text
  stdout.flush
  return s

/-- The number of steps between two looks at the output. -/
def slice : Nat := 65536

/-- Runs a session to its end. Whenever it waits, a line of the standard input is fed. -/
partial def runSession (run : Session.Run) (s : Session) : IO (Except Error Unit) := do
  let (progress, s) := Session.advance slice run s
  let s ← flushOutput s
  match progress with
  | .finished => return .ok ()
  | .failed failure => return .error (.runtime failure)
  | .unfinished run => runSession run s
  | .waiting run =>
    let line ← (← IO.getStdin).getLine
    runSession run (if line.isEmpty then s.close else s.feed line)

/-- Runs a program text. -/
def runText (text : String) (input? : Option String) : IO (Except Error Unit) := do
  match Program.ofText text with
  | .error e => return .error (.parse e)
  | .ok program =>
    let source := match input? with
      | some input => .ofText input
      | none => .fresh
    let (run, s) := (Session.start program source {}).begin .run
    runSession run s

/-- Does what a command asks for. -/
def performCommand : Command → IO (Except Error Unit)
  | .compile source target extensions annotated => do
    match ← assembleFile source extensions with
    | .error e => return .error e
    | .ok text =>
      match ← (IO.FS.writeFile target (if annotated then annotate text else text)).toBaseIO with
      | .error e => return .error (.file (.cannotOpen target (openFault e)))
      | .ok _ => return .ok ()
  | .run file true extensions input? => do
    match ← assembleFile file extensions with
    | .error e => return .error e
    | .ok text => runText text input?
  | .run file false _ input? => do
    match ← readSource file with
    | .error e => return .error (.file e)
    | .ok content => runText (programText content) input?

end Whitespace.CommandLine

open Whitespace.CommandLine in
/-- The program: exits with 0, with 1 after a failure, and with 2 when its words are not understood. -/
def main (words : List String) : IO UInt32 := do
  match parseArguments words with
  | .showHelp => IO.print helpText; return 0
  | .showVersion => IO.print versionText; return 0
  | .misuse => IO.eprint helpText; return 2
  | .perform command =>
    match ← performCommand command with
    | .ok _ => return 0
    | .error e => IO.eprintln e.message; return 1

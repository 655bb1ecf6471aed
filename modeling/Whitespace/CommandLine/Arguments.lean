/-
Module: Whitespace.CommandLine.Arguments
Purpose: The words of the command line and what they ask for. Options may be long or short, short ones
  may share a dash, a value may be attached or follow, and a double dash ends the options. Each option
  may be given once for the program and once for its command.
Main exports: Command, Request, parseArguments
-/

namespace Whitespace.CommandLine

/-- The options of the program and its commands. -/
inductive Flag where
  | verbose
  | extensions
  | annotate
  | assembly
  | input
deriving Repr, DecidableEq

/-- The long name of an option. -/
def Flag.longName : Flag → String
  | .verbose => "verbose"
  | .extensions => "extensions"
  | .annotate => "annotate"
  | .assembly => "asm"
  | .input => "input"

/-- The letter of an option. -/
def Flag.letter : Flag → Char
  | .verbose => 'v'
  | .extensions => 'e'
  | .annotate => 'a'
  | .assembly => 's'
  | .input => 'i'

def Flag.takesValue : Flag → Bool
  | .input => true
  | _ => false

/-- What the program is asked to do. -/
inductive Command where
  /-- Compile a source file to a program file. -/
  | compile (source target : String) (extensions annotated : Bool)
  /-- Run a program file, or a source file. -/
  | run (file : String) (assembly extensions : Bool) (input? : Option String)
deriving Repr, DecidableEq

/-- What the words of a command line come to. -/
inductive Request where
  | perform (command : Command)
  | showHelp
  | showVersion
  /-- The words are not understood. -/
  | misuse
deriving Repr, DecidableEq

/-- Why reading words comes to an early end. -/
inductive Stop where
  | help
  | version
  | misuse
deriving Repr, DecidableEq

/-- The words of one level, the program itself or one of its commands, sorted out. A missing value is
    kept, so that a request for help further on is still heeded. -/
structure Matches where
  flags : List Flag := []
  values : List (Option String) := []
  operands : List String := []
deriving Repr, DecidableEq

/-- What one level understands. -/
structure Grammar where
  flags : List Flag
  maxOperands : Nat
  hasVersion : Bool

/-- The program itself, which has its commands for operands. -/
def programGrammar : Grammar := ⟨[.verbose], 0, true⟩

def compileGrammar : Grammar := ⟨[.verbose, .extensions, .annotate], 2, false⟩

def runGrammar : Grammar := ⟨[.verbose, .assembly, .extensions, .input], 1, false⟩

/-- The form of a word. -/
inductive Word where
  | doubleDash
  | long (name : List Char) (value? : Option (List Char))
  | cluster (letters : List Char)
  | operand
deriving Repr, DecidableEq

/-- The form of a word. A dash alone is an operand. -/
def Word.of (word : String) : Word :=
  match word.toList with
  | ['-', '-'] => .doubleDash
  | '-' :: '-' :: rest =>
    match rest.dropWhile (· ≠ '=') with
    | _ :: value => .long (rest.takeWhile (· ≠ '=')) (some value)
    | [] => .long rest none
  | '-' :: c :: rest => .cluster (c :: rest)
  | _ => .operand

/-- Takes an option up. The answer says whether its value is still to come. -/
def takeFlag (m : Matches) (flag : Flag) (value? : Option (List Char)) : Matches × Bool :=
  let m := { m with flags := flag :: m.flags }
  match flag.takesValue, value? with
  | true, some value => ({ m with values := some (String.ofList value) :: m.values }, false)
  | true, none => ({ m with values := none :: m.values }, true)
  | false, _ => (m, false)

/-- Takes a long option up. Only an option with a value may have one attached, and the requests for
    help and for the version have none. -/
def takeLong (g : Grammar) (m : Matches) (name : List Char) (value? : Option (List Char)) :
    Except Stop (Matches × Bool) :=
  if name = "help".toList && value?.isNone then .error .help
  else if g.hasVersion && name = "version".toList && value?.isNone then .error .version
  else
    match g.flags.find? fun flag => flag.longName.toList = name with
    | some flag =>
      if value?.isSome && !flag.takesValue then .error .misuse else .ok (takeFlag m flag value?)
    | none => .error .misuse

/-- Takes short options up. What follows the letter of an option with a value is that value. -/
def takeCluster (g : Grammar) (m : Matches) : List Char → Except Stop (Matches × Bool)
  | [] => .ok (m, false)
  | c :: rest =>
    if c = 'h' then .error .help
    else if g.hasVersion && c = 'V' then .error .version
    else
      match g.flags.find? fun flag => flag.letter = c with
      | none => .error .misuse
      | some flag =>
        if flag.takesValue then
          match rest with
          | [] => .ok (takeFlag m flag none)
          | '=' :: value => .ok (takeFlag m flag (some value))
          | value => .ok (takeFlag m flag (some value))
        else takeCluster g (takeFlag m flag none).1 rest

/-- Gives the latest option the value that it waits for. -/
def takeValue (m : Matches) (value : String) : Matches :=
  { m with values := some value :: m.values.tail }

/-- Takes an operand up, if the level has room for it. -/
def takeOperand (g : Grammar) (m : Matches) (operand : String) : Except Stop Matches :=
  if m.operands.length < g.maxOperands then .ok { m with operands := m.operands ++ [operand] }
  else .error .misuse

/-- Sorts the words of a command out. `operandsOnly` holds after a double dash, and `awaiting` after an
    option whose value is still to come. -/
def sortWords (g : Grammar) (operandsOnly awaiting : Bool) (m : Matches) :
    List String → Except Stop Matches
  | [] => .ok m
  | word :: rest =>
    if operandsOnly then
      match takeOperand g m word with
      | .ok m => sortWords g true false m rest
      | .error stop => .error stop
    else
      match Word.of word with
      | .doubleDash => sortWords g true false m rest
      | .long name value? =>
        match takeLong g m name value? with
        | .ok (m, awaiting) => sortWords g false awaiting m rest
        | .error stop => .error stop
      | .cluster letters =>
        match takeCluster g m letters with
        | .ok (m, awaiting) => sortWords g false awaiting m rest
        | .error stop => .error stop
      | .operand =>
        if awaiting then sortWords g false false (takeValue m word) rest
        else
          match takeOperand g m word with
          | .ok m => sortWords g false false m rest
          | .error stop => .error stop

/-- No option is given twice, and none lacks its value. -/
def Matches.isSound (m : Matches) : Bool :=
  m.flags.length = m.flags.eraseDups.length && m.values.all Option.isSome

/-- The command that the sorted words make, if they are sound and complete. -/
def compileCommand? (m : Matches) : Option Command :=
  match m.operands with
  | [source, target] =>
    if m.isSound then
      some (.compile source target (m.flags.contains .extensions) (m.flags.contains .annotate))
    else none
  | _ => none

/-- The command that the sorted words make, if they are sound and complete. -/
def runCommand? (m : Matches) : Option Command :=
  match m.operands with
  | [file] =>
    if m.isSound then
      some (.run file (m.flags.contains .assembly) (m.flags.contains .extensions)
        (m.values.head?.join))
    else none
  | _ => none

def Stop.request : Stop → Request
  | .help => .showHelp
  | .version => .showVersion
  | .misuse => .misuse

/-- The request of a command with its words, `m` being the options of the program before it. -/
def parseCommand (m : Matches) (g : Grammar) (command? : Matches → Option Command)
    (words : List String) : Request :=
  match sortWords g false false {} words with
  | .error stop => stop.request
  | .ok sub =>
    match command? sub with
    | some command => if m.isSound then .perform command else .misuse
    | none => .misuse

/-- The request for help, which may name a command. -/
def parseHelp : List String → Request
  | [] | ["compile"] | ["run"] | ["help"] => .showHelp
  | _ => .misuse

/-- The request that words make, after options of the program. -/
def parseWords (m : Matches) : List String → Request
  | [] => .misuse
  | word :: rest =>
    match Word.of word with
    | .doubleDash => .misuse
    | .long name value? =>
      match takeLong programGrammar m name value? with
      | .ok (m, _) => parseWords m rest
      | .error stop => stop.request
    | .cluster letters =>
      match takeCluster programGrammar m letters with
      | .ok (m, _) => parseWords m rest
      | .error stop => stop.request
    | .operand =>
      match word with
      | "compile" => parseCommand m compileGrammar compileCommand? rest
      | "run" => parseCommand m runGrammar runCommand? rest
      | "help" => parseHelp rest
      | _ => .misuse

def parseArguments (words : List String) : Request := parseWords {} words

end Whitespace.CommandLine

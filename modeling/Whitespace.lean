import Whitespace.Assembly.BasicBlocks
import Whitespace.Assembly.Catalogue
import Whitespace.Assembly.Compile
import Whitespace.Assembly.Context
import Whitespace.Assembly.Error
import Whitespace.Assembly.Expansion
import Whitespace.Assembly.Integer
import Whitespace.Assembly.Lexer
import Whitespace.Assembly.Library
import Whitespace.Assembly.Library.Bitwise
import Whitespace.Assembly.Library.Io
import Whitespace.Assembly.Library.Math
import Whitespace.Assembly.Library.Memcontainer
import Whitespace.Assembly.Library.Memory
import Whitespace.Assembly.Library.Vector
import Whitespace.Assembly.Line
import Whitespace.Assembly.Lowering
import Whitespace.Assembly.Mention
import Whitespace.Assembly.Opcode
import Whitespace.Assembly.Reachability
import Whitespace.Assembly.Statement
import Whitespace.Assembly.Token
import Whitespace.Bitwise
import Whitespace.Bytecode.Cursor
import Whitespace.Bytecode.Encoding
import Whitespace.Bytecode.Parser
import Whitespace.Bytecode.Spelling
import Whitespace.Bytecode.Symbol
import Whitespace.CommandLine.Arguments
import Whitespace.CommandLine.Result
import Whitespace.Error
import Whitespace.Files.FileError
import Whitespace.Files.Path
import Whitespace.Files.Tree
import Whitespace.Input.Feed
import Whitespace.Input.Port
import Whitespace.Input.Source
import Whitespace.Instruction
import Whitespace.Machine.Command
import Whitespace.Machine.Fault
import Whitespace.Machine.Stack
import Whitespace.Machine.State
import Whitespace.Machine.Step
import Whitespace.Main
import Whitespace.Output
import Whitespace.Program
import Whitespace.Proofs.AcceptedLines
import Whitespace.Proofs.Layout
import Whitespace.Proofs.LineMachine
import Whitespace.Proofs.LineSimulation
import Whitespace.Proofs.LiveLines
import Whitespace.Proofs.Lockstep
import Whitespace.Proofs.Obedience
import Whitespace.Proofs.PlainEffects
import Whitespace.Proofs.RoundTrip
import Whitespace.Proofs.SymbolicCode
import Whitespace.Proofs.Targets
import Whitespace.Session
import Whitespace.Session.Run
import Whitespace.Text.Blank
import Whitespace.Text.CodeRange
import Whitespace.Text.Lines
import Whitespace.Text.LowerCase
import Whitespace.Text.Printable
import Whitespace.Text.Quoted
import Whitespace.Proofs.KeptLines
import Whitespace.Proofs.ShakenLines
import Whitespace.Proofs.SilentText
import Whitespace.Proofs.SilentExpansion
import Whitespace.Proofs.SilentLines
import Whitespace.Proofs.InvisibleLines
import Whitespace.Proofs.CommandOutcomes
import Whitespace.Proofs.StepCases
import Whitespace.Proofs.RemainingInput
import Whitespace.Proofs.Atomicity
import Whitespace.Proofs.History
import Whitespace.Proofs.Transparency
import Whitespace.Proofs.Stopping
import Whitespace.Proofs.ClosedPrograms
import Whitespace.Proofs.LateInput
import Whitespace.Proofs.Delivery
import Whitespace.Proofs.InputDelivery
import Whitespace.Proofs.Resumption
import Whitespace.Proofs.Readers
import Whitespace.Proofs.VariableValues
import Whitespace.Proofs.ParkedReads
import Whitespace.Proofs.FedText
import Whitespace.Proofs.FreshStart
import Whitespace.Proofs.CompletedInstructions
import Whitespace.Proofs.DepthFirst
import Whitespace.Proofs.PlainCompilation
import Whitespace.Proofs.RenamedLabels
import Whitespace.Proofs.LabelNumbers
import Whitespace.Proofs.Culprits
import Whitespace.Proofs.Gliding
import Whitespace.Proofs.Detours
import Whitespace.Proofs.BlankedLines
import Whitespace.Proofs.LiveNodes
import Whitespace.Proofs.DetourLines
import Whitespace.Proofs.LibraryBlocks
import Whitespace.Proofs.EarlyIncludes
import Whitespace.Proofs.LibraryInclusion
import Whitespace.Proofs.WrittenPrograms
import Whitespace.Proofs.StraightCode
import Whitespace.Proofs.Routines
import Whitespace.Proofs.BitwiseRoutines
import Whitespace.Proofs.VectorRoutines
import Whitespace.Proofs.StoredText
import Whitespace.Proofs.Grammar
import Whitespace.Proofs.Language
import Whitespace.Proofs.JoinedTexts
import Whitespace.Proofs.ResolvedVariables
import Whitespace.Proofs.BlockSearch
import Whitespace.Proofs.ReachableLines
import Whitespace.Proofs.Numerals
import Whitespace.Proofs.IntegerLiterals
import Whitespace.Proofs.WrittenLines
import Whitespace.Proofs.BatchedInput
import Whitespace.Proofs.ExactArithmetic
import Whitespace.Proofs.MathRoutines
import Whitespace.Proofs.MemoryRoutines
import Whitespace.Proofs.BracketedTexts
import Whitespace.Proofs.LiteralScanners

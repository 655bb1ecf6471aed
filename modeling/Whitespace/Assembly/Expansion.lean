/-
Module: Whitespace.Assembly.Expansion
Purpose: Read a source line by line and put, in place of every include, the lines of the source it
  names. The first include of a name counts; later ones bring nothing, so sources may include each
  other in any way.
Main exports: PendingLine, includeTarget, expand, expandSource
-/
import Whitespace.Assembly.Catalogue
import Whitespace.Assembly.Line
import Whitespace.Text.Lines

namespace Whitespace.Assembly

/-- A line that is still to be cut into tokens. -/
structure PendingLine where
  source : String
  number : Nat
  text : List Char
deriving Repr, DecidableEq

def pendingLines (source text : String) : List PendingLine :=
  (Text.stampedLines text).map fun (number, line) => ⟨source, number, line⟩

/-- Is the word the one that asks for an include? Upper and lower case are the same. -/
def isInclude (name : String) : Bool :=
  name.toList.map Char.toLower = "include".toList

/-- The name that the arguments of an include give. -/
def includeTarget : List Token → Except CompileCause String
  | [.word name] | [.string name] | [.variable name] => .ok name
  | arguments =>
    .error (.inclusion (String.intercalate " " (arguments.map Token.shown))
      (.notAName (arguments.map Token.kind)))

/-- The names that an include can succeed with and that were not included yet. -/
def untouched (catalogue : Catalogue) (included : List String) : List String :=
  catalogue.includable.filter (!included.contains ·)

/-- Including a source leaves fewer names untouched. -/
theorem length_untouched_lt {catalogue : Catalogue} {options : Options} {included : List String}
    {name text : String} (hn : ¬included.contains name = true)
    (hf : catalogue.find options name = .ok text) :
    (untouched catalogue (name :: included)).length < (untouched catalogue included).length := by
  have hm := Catalogue.mem_includable_of_find hf
  have hsub : untouched catalogue (name :: included) =
      (untouched catalogue included).filter (· ≠ name) := by
    unfold untouched
    rw [List.filter_filter]
    congr 1
    funext x
    by_cases hx : x = name <;> simp [hx]
  rw [hsub]
  exact List.length_filter_lt_length_iff_exists.2
    ⟨name, by simpa [untouched, hm] using hn, by simp⟩

/-- Cuts lines into tokens and follows their includes. Lines without tokens are left out. The lines of
    an included source are put in front of the lines that are still to come. -/
def expand (catalogue : Catalogue) (ctx : Context) (pending : List PendingLine) :
    Except CompileError (Context × List Line) :=
  match pending with
  | [] => .ok (ctx, [])
  | line :: rest =>
    let fail (cause : CompileCause) : Except CompileError (Context × List Line) :=
      .error ⟨line.source, line.number, cause⟩
    let keep (tokens : List Token) : Except CompileError (Context × List Line) :=
      (expand catalogue ctx rest).map fun (ctx, lines) =>
        (ctx, ⟨line.source, line.number, tokens⟩ :: lines)
    match tokenize line.text with
    | .error e => fail (.lex e)
    | .ok [] => expand catalogue ctx rest
    | .ok (.word word :: arguments) =>
      if isInclude word then
        match includeTarget arguments with
        | .error cause => fail cause
        | .ok name =>
          if hn : ctx.hasIncluded name then expand catalogue ctx rest
          else
            match hf : catalogue.find ctx.options name with
            | .error e => fail (.inclusion name (.unresolved e))
            | .ok text =>
              have := length_untouched_lt hn hf
              expand catalogue (ctx.markIncluded name) (pendingLines name text ++ rest)
      else
        keep (.word word :: arguments)
    | .ok tokens => keep tokens
termination_by ((untouched catalogue ctx.included).length, pending.length)

/-- The lines of a source, includes followed. -/
def expandSource (catalogue : Catalogue) (ctx : Context) (source text : String) :
    Except CompileError (Context × List Line) :=
  expand catalogue ctx (pendingLines source text)

end Whitespace.Assembly

/-
Module: Whitespace.Assembly.Reachability
Purpose: Drop the lines that control cannot reach from the first line. Control goes from a line to the
  next one, unless the line jumps without condition or returns; and from a line that calls a label or
  jumps to it to every line that defines the label. The lines need not be valid otherwise.
Main exports: Line.marksLabel, Line.refersTo, Line.continues, successors, unreached, reachableLines
-/
import Std.Data.TreeSet
import Whitespace.Assembly.Line

namespace Whitespace.Assembly

namespace Line

/-- The opcode in lower case, or nothing for a line that does not start with a word. -/
def opcodeText (l : Line) : String := l.opcode?.getD ""

def marksLabel (l : Line) : Option String :=
  if l.opcodeText = "label" then l.labelName? else none

/-- The label that the line sends control to. Every opcode that starts like a jump counts as one. -/
def refersTo (l : Line) : Option String :=
  if "jump".toList.isPrefixOf l.opcodeText.toList || l.opcodeText = "call" then l.labelName? else none

/-- Does control go on with the next line? -/
def continues (l : Line) : Bool :=
  !(l.opcodeText = "jump" || l.opcodeText = "ret")

end Line

/-- What a line has to do with control. -/
structure Conduct where
  marksLabel : Option String
  refersTo : Option String
  continues : Bool
deriving Repr, DecidableEq

def Line.conduct (l : Line) : Conduct := ⟨l.marksLabel, l.refersTo, l.continues⟩

/-- The labels that lines define, each with the place of its line. -/
def definitionsOf (conducts : Array Conduct) : List (String × Nat) :=
  conducts.toList.zipIdx.filterMap fun (c, place) => c.marksLabel.map fun name => (name, place)

def placesOf (definitions : List (String × Nat)) (name : String) : List Nat :=
  (definitions.filter fun (defined, _) => defined = name).map Prod.snd

/-- The places that control can go to directly from a place. -/
def successors (conducts : Array Conduct) (definitions : List (String × Nat)) (place : Nat) :
    List Nat :=
  match conducts[place]? with
  | none => []
  | some c =>
    let following := if c.continues then [place + 1] else []
    match c.refersTo with
    | some name => following ++ placesOf definitions name
    | none => following

/-- Taking a member out of a set of places leaves a smaller set. -/
theorem size_erase_lt {places : Std.TreeSet Nat} {place : Nat} (h : place ∈ places) :
    (places.erase place).size < places.size := by
  have member : places.contains place = true := Std.TreeSet.mem_iff_contains.1 h
  have erased : (places.erase place).size = places.size - 1 := by
    rw [Std.TreeSet.size_erase, if_pos member]
  have nonempty := Std.TreeSet.isEmpty_eq_false_of_contains member
  rw [Std.TreeSet.isEmpty_eq_size_eq_zero] at nonempty
  have positive : places.size ≠ 0 := by simpa using nonempty
  omega

/-- The places, out of those not seen so far, that cannot be reached from the places in `work`. -/
def unreached (next : Nat → List Nat) (unseen : Std.TreeSet Nat) (work : List Nat) :
    Std.TreeSet Nat :=
  match work with
  | [] => unseen
  | place :: rest =>
    if place ∈ unseen then unreached next (unseen.erase place) (next place ++ rest)
    else unreached next unseen rest
termination_by (unseen.size, work.length)
decreasing_by
  · rename_i h
    exact Prod.Lex.left _ _ (size_erase_lt h)
  · exact Prod.Lex.right _ (by simp)

/-- The places that cannot be reached from the first line. -/
def unreachablePlaces (lines : List Line) : Std.TreeSet Nat :=
  let conducts := (lines.map Line.conduct).toArray
  unreached (successors conducts (definitionsOf conducts))
    (Std.TreeSet.ofList (List.range conducts.size)) [0]

/-- The lines that control can reach, in their order. -/
def reachableLines (lines : List Line) : List Line :=
  let dead := unreachablePlaces lines
  (lines.zipIdx.filter fun (_, place) => !dead.contains place).map Prod.fst

end Whitespace.Assembly

/-
Module: Whitespace.Assembly.BasicBlocks
Purpose: Drop the lines that control cannot reach, a block at a time. Lines are cut at each label and
  after each line that control does not pass. A block in front of a label falls through into the label's
  block, and the calls and jumps in a block lead to every block that starts with the label.
Main exports: BasicBlock, cutFrom, cutBlocks, blockSuccessors, reachableBlocks, shakeBlocks
-/
import Whitespace.Assembly.Reachability

namespace Whitespace.Assembly

/-- Does the line start a block? A label line does, with or without a name. -/
def Line.startsBlock (l : Line) : Bool := l.opcodeText = "label"

/-- Lines that stand together. -/
structure BasicBlock where
  lines : List Line
  /-- Is the block cut at the label of the next block? -/
  fallsThrough : Bool
deriving Repr, DecidableEq

/-- The label that the block starts with. -/
def BasicBlock.defines (b : BasicBlock) : Option String := b.lines.head?.bind Line.marksLabel

def BasicBlock.references (b : BasicBlock) : List String := b.lines.filterMap Line.refersTo

/-- The blocks of lines, the first of which starts with the lines in `current`. After a line that control
    does not pass there is a new block, even if a label or the end of the lines follows at once. -/
def cutFrom (current : List Line) : List Line → List BasicBlock
  | [] => [⟨current, false⟩]
  | l :: rest =>
    if l.startsBlock then ⟨current, true⟩ :: cutFrom [l] rest
    else if l.continues then cutFrom (current ++ [l]) rest
    else ⟨current ++ [l], false⟩ :: cutFrom [] rest

def cutBlocks (lines : List Line) : List BasicBlock := cutFrom [] lines

/-- The numbers of the blocks that start with a label. -/
def blocksDefining (blocks : List BasicBlock) (name : String) : List Nat :=
  (blocks.zipIdx.filter fun (b, _) => b.defines = some name).map Prod.snd

/-- The numbers of the blocks that control can go to directly from a block. -/
def blockSuccessors (blocks : List BasicBlock) (n : Nat) : List Nat :=
  match blocks[n]? with
  | none => []
  | some b =>
    (if b.fallsThrough then [n + 1] else []) ++ b.references.flatMap (blocksDefining blocks)

/-- The blocks that control can reach, in their order. -/
def reachableBlocks (blocks : List BasicBlock) : List BasicBlock :=
  let dead := unreached (blockSuccessors blocks) (.ofList (List.range blocks.length)) [0]
  (blocks.zipIdx.filter fun (_, n) => !dead.contains n).map Prod.fst

/-- The lines of the blocks that control can reach. -/
def shakeBlocks (lines : List Line) : List Line :=
  (reachableBlocks (cutBlocks lines)).flatMap BasicBlock.lines

end Whitespace.Assembly

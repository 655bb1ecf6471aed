/-
Module: Whitespace.Proofs.BlockSearch
Purpose: The search by blocks drops the same lines as the search by lines. Control passes a block as a
  whole: it can only come in at the first line, and it gets from there to the last. So the search finds a
  block exactly when the lines of the block are live. This also holds next to blocks without lines, which
  only fall through when they stand first, and are never found elsewhere.
Main exports: Cuts, cuts_cutBlocks, blockStart, Cuts.found_iff_live, shakeBlocks_eq_reachableLines
-/
import Mathlib.Data.List.Chain
import Whitespace.Assembly.BasicBlocks
import Whitespace.Proofs.KeptLines

namespace Whitespace.Assembly

/-! ### Cutting -/

/-- Control passes all lines of the block but the last, and no line of it but the first is a label. -/
structure BasicBlock.Straight (b : BasicBlock) : Prop where
  passes : ∀ l ∈ b.lines.dropLast, l.continues = true
  unmarked : ∀ l ∈ b.lines.tail, l.startsBlock = false

/-- How a block goes with the one that follows it. -/
structure BasicBlock.Meets (b next : BasicBlock) : Prop where
  falls : b.fallsThrough = true →
    (∀ l ∈ b.lines, l.continues = true) ∧ ∃ l, next.lines[0]? = some l ∧ l.startsBlock = true
  stops : b.fallsThrough = false → ∃ l, b.lines.getLast? = some l ∧ l.continues = false

/-- The blocks are a cut of the lines into blocks that control passes as a whole. -/
structure Cuts (blocks : List BasicBlock) (lines : List Line) : Prop where
  whole : blocks.flatMap BasicBlock.lines = lines
  straight : ∀ b ∈ blocks, b.Straight
  meets : blocks.IsChain BasicBlock.Meets

theorem Line.continues_of_startsBlock {l : Line} (h : l.startsBlock = true) : l.continues = true := by
  have label : l.opcodeText = "label" := by simpa [startsBlock] using h
  simp [continues_iff, label]

/-- The first block begins with the lines that were already collected for it. -/
theorem prefix_of_mem_head?_cutFrom {current rest : List Line} {b : BasicBlock}
    (h : b ∈ (cutFrom current rest).head?) : current <+: b.lines := by
  fun_induction cutFrom current rest with
  | case1 current =>
      cases h
      exact List.prefix_rfl
  | case2 current l rest starts ih =>
      cases h
      exact List.prefix_rfl
  | case3 current l rest starts continues ih => exact (List.prefix_append current [l]).trans (ih h)
  | case4 current l rest starts stops ih =>
      cases h
      exact List.prefix_append current [l]

section

variable {blocks : List BasicBlock} {lines current rest : List Line}

theorem straight_of_passed (passed : ∀ l ∈ current, l.continues = true)
    (unmarked : ∀ l ∈ current.tail, l.startsBlock = false) (falls : Bool) :
    BasicBlock.Straight ⟨current, falls⟩ where
  passes l inner := passed l (List.mem_of_mem_dropLast inner)
  unmarked := unmarked

/-- A line that starts no block may join the lines of one. -/
theorem unmarked_append {l : Line} (unmarked : ∀ l ∈ current.tail, l.startsBlock = false)
    (plain : l.startsBlock = false) : ∀ l' ∈ (current ++ [l]).tail, l'.startsBlock = false := by
  cases current with
  | nil => simp
  | cons first more =>
      intro l' member
      rcases List.mem_append.1 member with old | new
      · exact unmarked l' old
      · rwa [List.mem_singleton.1 new]

theorem Cuts.cons {b : BasicBlock} (straight : b.Straight) (meets : ∀ next ∈ blocks.head?, b.Meets next)
    (h : Cuts blocks lines) : Cuts (b :: blocks) (b.lines ++ lines) where
  whole := by rw [List.flatMap_cons, h.whole]
  straight := List.forall_mem_cons.2 ⟨straight, h.straight⟩
  meets := List.isChain_cons.2 ⟨meets, h.meets⟩

/-- Lines are cut well if control passes those that the first block has from the start. -/
theorem cuts_cutFrom (passed : ∀ l ∈ current, l.continues = true)
    (unmarked : ∀ l ∈ current.tail, l.startsBlock = false) :
    Cuts (cutFrom current rest) (current ++ rest) := by
  fun_induction cutFrom current rest with
  | case1 current =>
      exact ⟨by simp, List.forall_mem_singleton.2 (straight_of_passed passed unmarked false), .singleton _⟩
  | case2 current l rest starts ih =>
      have next : Cuts (cutFrom [l] rest) (l :: rest) := by
        apply ih <;> simp [Line.continues_of_startsBlock starts]
      refine next.cons (straight_of_passed passed unmarked true) fun b front => ⟨fun _ => ?_, nofun⟩
      obtain ⟨more, lines⟩ := prefix_of_mem_head?_cutFrom front
      refine ⟨passed, l, ?_, starts⟩
      rw [← lines]
      rfl
  | case3 current l rest plain continues ih =>
      rw [List.append_cons current l rest]
      apply ih
      · intro l' member
        rcases List.mem_append.1 member with old | new
        · exact passed l' old
        · rwa [List.mem_singleton.1 new]
      · exact unmarked_append unmarked (by simpa using plain)
  | case4 current l rest plain stops ih =>
      have next : Cuts (cutFrom [] rest) rest := ih nofun nofun
      have straight : BasicBlock.Straight ⟨current ++ [l], false⟩ := by
        refine ⟨fun l' inner => passed l' ?_, unmarked_append unmarked (by simpa using plain)⟩
        rwa [List.dropLast_concat] at inner
      rw [List.append_cons current l rest]
      refine next.cons straight fun b _ => ⟨nofun, fun _ => ⟨l, ?_, by simpa using stops⟩⟩
      exact List.getLast?_concat

theorem cuts_cutBlocks (lines : List Line) : Cuts (cutBlocks lines) lines :=
  cuts_cutFrom nofun nofun

end

/-! ### Places -/

def blockStart (blocks : List BasicBlock) (n : Nat) : Nat :=
  ((blocks.take n).flatMap BasicBlock.lines).length

section

variable {blocks : List BasicBlock} {lines : List Line} {n i k : Nat} {b next : BasicBlock} {l : Line}

@[simp] theorem blockStart_zero (blocks : List BasicBlock) : blockStart blocks 0 = 0 := rfl

@[simp] theorem blockStart_cons_succ (b : BasicBlock) (blocks : List BasicBlock) (n : Nat) :
    blockStart (b :: blocks) (n + 1) = b.lines.length + blockStart blocks n := by
  simp [blockStart]

theorem blockStart_succ (here : blocks[n]? = some b) :
    blockStart blocks (n + 1) = blockStart blocks n + b.lines.length := by
  rw [blockStart, List.take_add_one, here]
  simp [blockStart]

/-- The line at a place of a block stands so many places behind the start of the block. -/
theorem getElem?_blockStart_add (here : blocks[n]? = some b) (line : b.lines[i]? = some l) :
    (blocks.flatMap BasicBlock.lines)[blockStart blocks n + i]? = some l := by
  induction blocks generalizing n with
  | nil => cases here
  | cons c blocks ih =>
      rw [List.flatMap_cons]
      cases n with
      | zero =>
          cases here
          rw [blockStart_zero, Nat.zero_add, List.getElem?_append_left (List.getElem?_eq_some_iff.1 line).1]
          exact line
      | succ n =>
          rw [blockStart_cons_succ, Nat.add_assoc, List.getElem?_append_right (Nat.le_add_right ..),
            Nat.add_sub_cancel_left]
          exact ih here

/-- Every line stands in a block. -/
theorem exists_block_of_getElem? (line : (blocks.flatMap BasicBlock.lines)[k]? = some l) :
    ∃ n b i, blocks[n]? = some b ∧ b.lines[i]? = some l ∧ k = blockStart blocks n + i := by
  induction blocks generalizing k with
  | nil => cases line
  | cons c blocks ih =>
      rw [List.flatMap_cons] at line
      by_cases inside : k < c.lines.length
      · rw [List.getElem?_append_left inside] at line
        exact ⟨0, c, k, rfl, line, by simp⟩
      · rw [List.getElem?_append_right (Nat.le_of_not_lt inside)] at line
        obtain ⟨n, b, i, here, line, place⟩ := ih line
        refine ⟨n + 1, b, i, here, line, ?_⟩
        rw [blockStart_cons_succ]
        omega

end

/-! ### The search -/

/-- The blocks listed for a label are those that define it. -/
theorem mem_blocksDefining_iff {blocks : List BasicBlock} {name : String} {n : Nat} :
    n ∈ blocksDefining blocks name ↔ ∃ b, blocks[n]? = some b ∧ b.defines = some name := by
  simp only [blocksDefining, List.mem_map, List.mem_filter, Prod.exists, decide_eq_true_eq]
  constructor
  · rintro ⟨b, n, ⟨member, defines⟩, rfl⟩
    exact ⟨b, List.mem_zipIdx_iff_getElem?.1 member, defines⟩
  · rintro ⟨b, here, defines⟩
    exact ⟨b, n, ⟨List.mem_zipIdx_iff_getElem?.2 here, defines⟩, rfl⟩

/-- Control goes from a block to the following one if it falls through, and to the blocks that define a label
    to which one of its lines refers. -/
theorem mem_blockSuccessors_iff {blocks : List BasicBlock} {n m : Nat} :
    m ∈ blockSuccessors blocks n ↔
      ∃ b, blocks[n]? = some b ∧ ((b.fallsThrough = true ∧ m = n + 1) ∨
        ∃ name c, name ∈ b.references ∧ blocks[m]? = some c ∧ c.defines = some name) := by
  unfold blockSuccessors
  cases here : blocks[n]? with
  | none => simp
  | some b =>
      simp only [List.mem_append, List.mem_flatMap, mem_blocksDefining_iff]
      cases falls : b.fallsThrough <;> simp [falls]

/-- A block refers to the labels to which its lines refer. -/
theorem BasicBlock.mem_references_iff {b : BasicBlock} {name : String} :
    name ∈ b.references ↔ ∃ (i : Nat) (l : Line), b.lines[i]? = some l ∧ l.refersTo = some name := by
  rw [references, List.mem_filterMap]
  constructor
  · rintro ⟨l, member, refers⟩
    obtain ⟨i, line⟩ := List.mem_iff_getElem?.1 member
    exact ⟨i, l, line, refers⟩
  · rintro ⟨i, l, line, refers⟩
    exact ⟨l, List.mem_of_getElem? line, refers⟩

abbrev FoundBlock (blocks : List BasicBlock) (n : Nat) : Prop :=
  Found (blockSuccessors blocks) (.ofList (List.range blocks.length)) [0] n

section

variable {blocks : List BasicBlock} {lines : List Line} {n i k : Nat} {b next : BasicBlock} {l : Line}

theorem mem_blockNumbers_iff :
    n ∈ Std.TreeSet.ofList (List.range blocks.length) ↔ ∃ b, blocks[n]? = some b := by
  simp [Std.TreeSet.mem_ofList, List.getElem?_eq_some_iff]

theorem FoundBlock.first (here : blocks[0]? = some b) : FoundBlock blocks 0 :=
  .root (mem_blockNumbers_iff.2 ⟨b, here⟩) List.mem_cons_self

theorem FoundBlock.falls (found : FoundBlock blocks n) (here : blocks[n]? = some b)
    (falls : b.fallsThrough = true) (there : blocks[n + 1]? = some next) : FoundBlock blocks (n + 1) :=
  .edge found (mem_blockNumbers_iff.2 ⟨next, there⟩)
    (mem_blockSuccessors_iff.2 ⟨b, here, .inl ⟨falls, rfl⟩⟩)

theorem FoundBlock.referred {m : Nat} {name : String} (found : FoundBlock blocks n)
    (here : blocks[n]? = some b) (refers : name ∈ b.references) (there : blocks[m]? = some next)
    (defines : next.defines = some name) : FoundBlock blocks m :=
  .edge found (mem_blockNumbers_iff.2 ⟨next, there⟩)
    (mem_blockSuccessors_iff.2 ⟨b, here, .inr ⟨name, next, refers, there, defines⟩⟩)

theorem Cuts.meets_at (cut : Cuts blocks lines) (here : blocks[n]? = some b)
    (there : blocks[n + 1]? = some next) : b.Meets next := by
  obtain ⟨_, rfl⟩ := List.getElem?_eq_some_iff.1 here
  obtain ⟨bound, rfl⟩ := List.getElem?_eq_some_iff.1 there
  exact List.isChain_iff_getElem.1 cut.meets n bound

theorem Cuts.line (cut : Cuts blocks lines) (here : blocks[n]? = some b) (line : b.lines[i]? = some l) :
    lines[blockStart blocks n + i]? = some l := by
  rw [← cut.whole]
  exact getElem?_blockStart_add here line

theorem Cuts.conduct (cut : Cuts blocks lines) (here : blocks[n]? = some b)
    (line : b.lines[i]? = some l) :
    (lines.map Line.conduct)[blockStart blocks n + i]? = some l.conduct :=
  conduct_of_line (cut.line here line)

/-- Control gets from the first line of a block to all of its lines. -/
theorem Cuts.live_block (cut : Cuts blocks lines) (here : blocks[n]? = some b)
    (start : ∀ l, b.lines[0]? = some l → Live (lines.map Line.conduct) (blockStart blocks n))
    (line : b.lines[i]? = some l) : Live (lines.map Line.conduct) (blockStart blocks n + i) := by
  induction i generalizing l with
  | zero => exact start l line
  | succ i ih =>
      have bound := (List.getElem?_eq_some_iff.1 line).1
      have before : b.lines[i]? = some b.lines[i] := List.getElem?_eq_getElem (Nat.lt_of_succ_lt bound)
      have inner : b.lines[i] ∈ b.lines.dropLast := by
        apply List.mem_of_getElem? (i := i)
        rw [List.getElem?_dropLast, if_pos (by omega), before]
      have passes := (cut.straight b (List.mem_of_getElem? here)).passes _ inner
      exact .following (ih before) (cut.conduct here before) passes (cut.conduct here line)

/-- A block that defines a label starts with the label. -/
theorem BasicBlock.defines_eq_some_iff {name : String} :
    b.defines = some name ↔ ∃ l, b.lines[0]? = some l ∧ l.marksLabel = some name := by
  rw [defines, Option.bind_eq_some_iff, List.head?_eq_getElem?]

theorem Line.startsBlock_of_marksLabel {name : String} (h : l.marksLabel = some name) :
    l.startsBlock = true := by
  simpa [startsBlock] using (marksLabel_eq_some_iff.1 h).1

/-- A label is the first line of its block. -/
theorem Cuts.eq_zero_of_startsBlock (cut : Cuts blocks lines) (here : blocks[n]? = some b)
    (line : b.lines[i]? = some l) (starts : l.startsBlock = true) : i = 0 := by
  cases i with
  | zero => rfl
  | succ i =>
      have inner : l ∈ b.lines.tail := by
        apply List.mem_of_getElem? (i := i)
        rwa [List.getElem?_tail]
      have plain := (cut.straight b (List.mem_of_getElem? here)).unmarked l inner
      rw [starts] at plain
      cases plain

/-- Control falls through from the lines of a block to the next block, and starts there when a first block
    without lines is what falls through. -/
theorem Cuts.live_fallen (cut : Cuts blocks lines) (before : blocks[n]? = some b)
    (here : blocks[n + 1]? = some next) (falls : b.fallsThrough = true)
    (entered : n = 0 ∨ ∃ l, b.lines[0]? = some l)
    (start : ∀ l, b.lines[0]? = some l → Live (lines.map Line.conduct) (blockStart blocks n))
    (line : next.lines[0]? = some l) : Live (lines.map Line.conduct) (blockStart blocks (n + 1)) := by
  have target := cut.conduct here line
  rw [blockStart_succ before] at target ⊢
  cases size : b.lines.length with
  | zero =>
      have empty : b.lines = [] := List.eq_nil_of_length_eq_zero size
      obtain rfl | ⟨l, line⟩ := entered
      · simp only [size, blockStart_zero, Nat.zero_add] at target ⊢
        exact .first target
      · rw [empty] at line
        cases line
  | succ last =>
      have known : b.lines[last]? = some b.lines[last] := List.getElem?_eq_getElem (by omega)
      have passes := ((cut.meets_at before here).falls falls).1
      rw [size] at target
      exact .following (cut.live_block before start known) (cut.conduct before known)
        (passes _ (List.mem_of_getElem? known)) target

/-- A block that is found has a first line, unless it is the first block, and control gets there. -/
theorem Cuts.live_of_found (cut : Cuts blocks lines) (found : FoundBlock blocks n)
    (here : blocks[n]? = some b) :
    (n = 0 ∨ ∃ l, b.lines[0]? = some l) ∧
      ∀ l, b.lines[0]? = some l → Live (lines.map Line.conduct) (blockStart blocks n) := by
  induction found generalizing b with
  | root _ start =>
      obtain rfl := List.mem_singleton.1 start
      exact ⟨.inl rfl, fun l line => .first (cut.conduct here line)⟩
  | @edge n m found _ leads ih =>
      obtain ⟨c, before, ⟨falls, rfl⟩ | ⟨name, b', refers, here', defines⟩⟩ :=
        mem_blockSuccessors_iff.1 leads
      · obtain ⟨-, l, head, -⟩ := (cut.meets_at before here).falls falls
        obtain ⟨entered, start⟩ := ih before
        exact ⟨.inr ⟨l, head⟩, fun _ line => cut.live_fallen before here falls entered start line⟩
      · obtain rfl : b' = b := Option.some.inj (here'.symm.trans here)
        obtain ⟨_, start⟩ := ih before
        obtain ⟨i, l, line, refers⟩ := BasicBlock.mem_references_iff.1 refers
        obtain ⟨l', head, marks⟩ := BasicBlock.defines_eq_some_iff.1 defines
        exact ⟨.inr ⟨l', head⟩, fun _ _ => .referred (cut.live_block before start line)
          (cut.conduct before line) refers (cut.conduct here head) marks⟩

/-- A block that does not fall through ends with a line that control does not pass. -/
theorem Cuts.stopped (cut : Cuts blocks lines) (before : blocks[n]? = some b)
    (here : blocks[n + 1]? = some next) (stops : b.fallsThrough = false) :
    ∃ k l, lines[k]? = some l ∧ l.continues = false ∧ k + 1 = blockStart blocks (n + 1) := by
  obtain ⟨l, last, stop⟩ := (cut.meets_at before here).stops stops
  rw [List.getLast?_eq_getElem?] at last
  refine ⟨_, l, cut.line before last, stop, ?_⟩
  have bound := (List.getElem?_eq_some_iff.1 last).1
  rw [blockStart_succ before]
  omega

theorem exists_block_before (here : blocks[n + 1]? = some next) : ∃ b, blocks[n]? = some b :=
  ⟨_, List.getElem?_eq_getElem (Nat.lt_of_succ_lt (List.getElem?_eq_some_iff.1 here).1)⟩

/-- In front of a block either is a line that control does not pass, or the block before it falls through,
    and when that one has no lines it is the first. -/
theorem Cuts.entry (cut : Cuts blocks lines) (before : blocks[n]? = some b)
    (here : blocks[n + 1]? = some next) :
    (b.fallsThrough = true ∧ (b.lines = [] → n = 0)) ∨
      ∃ k l, lines[k]? = some l ∧ l.continues = false ∧ k + 1 = blockStart blocks (n + 1) := by
  cases falls : b.fallsThrough with
  | false => exact .inr (cut.stopped before here falls)
  | true =>
      by_cases empty : b.lines = []
      · cases n with
        | zero => exact .inl ⟨rfl, fun _ => rfl⟩
        | succ n =>
            obtain ⟨c, earlier⟩ := exists_block_before before
            cases falls' : c.fallsThrough with
            | true =>
                obtain ⟨-, l, line, -⟩ := (cut.meets_at earlier before).falls falls'
                rw [empty] at line
                cases line
            | false =>
                obtain ⟨k, l, line, stop, place⟩ := cut.stopped earlier before falls'
                refine .inr ⟨k, l, line, stop, ?_⟩
                rw [blockStart_succ before, empty, place]
                rfl
      · exact .inl ⟨rfl, fun none => absurd none empty⟩

/-- The search gets to a block if control passes the line in front of it, if there is one, and the search
    finds the block of that line. -/
theorem Cuts.found_succ (cut : Cuts blocks lines) (before : blocks[n]? = some b)
    (here : blocks[n + 1]? = some next)
    (passed : ∀ k l, lines[k]? = some l → k + 1 = blockStart blocks (n + 1) → l.continues = true)
    (found : ∀ i l, b.lines[i]? = some l → blockStart blocks n + i + 1 = blockStart blocks (n + 1) →
      FoundBlock blocks n) : FoundBlock blocks (n + 1) := by
  rcases cut.entry before here with ⟨falls, start⟩ | ⟨k, l, line, stop, place⟩
  · cases size : b.lines.length with
    | zero =>
        obtain rfl := start (List.eq_nil_of_length_eq_zero size)
        exact .falls (.first before) before falls here
    | succ last =>
        have known : b.lines[last]? = some b.lines[last] := List.getElem?_eq_getElem (by omega)
        refine .falls (found last _ known ?_) before falls here
        rw [blockStart_succ before, size, Nat.add_assoc]
  · rw [passed k l line place] at stop
    cases stop

/-- The search finds the block of every line that control reaches. -/
theorem Cuts.found_of_live (cut : Cuts blocks lines) (live : Live (lines.map Line.conduct) k)
    (here : blocks[n]? = some b) (line : b.lines[i]? = some l) (place : k = blockStart blocks n + i) :
    FoundBlock blocks n := by
  induction live generalizing n b i l with
  | first _ =>
      cases n with
      | zero => exact .first here
      | succ n =>
          obtain ⟨c, before⟩ := exists_block_before here
          apply cut.found_succ before here
          · intro k l _ following
            omega
          · intro i l _ following
            omega
  | @following k c d live item continues _ ih =>
      cases i with
      | succ i =>
          have bound := (List.getElem?_eq_some_iff.1 line).1
          exact ih here (List.getElem?_eq_getElem (Nat.lt_of_succ_lt bound)) (by omega)
      | zero =>
          cases n with
          | zero => cases place
          | succ n =>
              obtain ⟨b', before⟩ := exists_block_before here
              apply cut.found_succ before here
              · intro k' l' line' following
                obtain rfl : k' = k := by omega
                obtain rfl := Option.some.inj ((conduct_of_line line').symm.trans item)
                exact continues
              · intro i' l' line' following
                exact ih before line' (by omega)
  | @referred k j c d name live item refers item' marks ih =>
      obtain ⟨l', line', rfl⟩ := exists_line_of_conduct item
      rw [← cut.whole] at line'
      obtain ⟨m, b', i', there, line', place'⟩ := exists_block_of_getElem? line'
      subst place
      rw [cut.conduct here line] at item'
      cases item'
      have found := ih there line' place'
      obtain rfl := cut.eq_zero_of_startsBlock here line (Line.startsBlock_of_marksLabel marks)
      exact found.referred there (BasicBlock.mem_references_iff.2 ⟨i', l', line', refers⟩) here
        (BasicBlock.defines_eq_some_iff.2 ⟨l, line, marks⟩)

/-- The search finds a block exactly when control reaches the lines of the block. -/
theorem Cuts.found_iff_live (cut : Cuts blocks lines) (here : blocks[n]? = some b)
    (line : b.lines[i]? = some l) :
    FoundBlock blocks n ↔ Live (lines.map Line.conduct) (blockStart blocks n + i) := by
  constructor
  · intro found
    exact cut.live_block here (cut.live_of_found found here).2 line
  · intro live
    exact cut.found_of_live live here line rfl

end

/-! ### The lines that are left -/

/-- The blocks that the search finds; numbers after the last block count as found. -/
def keptBlocks (blocks : List BasicBlock) (n : Nat) : Bool :=
  !(unreached (blockSuccessors blocks) (.ofList (List.range blocks.length)) [0]).contains n

theorem reachableBlocks_eq_pick (blocks : List BasicBlock) :
    reachableBlocks blocks = pick (keptBlocks blocks) 0 blocks := by
  rw [pick_eq_zipIdx]
  rfl

theorem keptBlocks_iff {blocks : List BasicBlock} {n : Nat} {b : BasicBlock} (here : blocks[n]? = some b) :
    keptBlocks blocks n = true ↔ FoundBlock blocks n := by
  have dead := @mem_unreached_iff (blockSuccessors blocks) (.ofList (List.range blocks.length)) [0] n
  rw [Std.TreeSet.mem_iff_contains, and_iff_right (mem_blockNumbers_iff.2 ⟨b, here⟩)] at dead
  rw [keptBlocks, Bool.not_eq_true', ← Bool.not_eq_true, dead, not_not]

/-- Picking blocks picks their lines. -/
theorem flatMap_pick {blocks : List BasicBlock} {keep keepBlock : Nat → Bool} {start first : Nat}
    (agree : ∀ n b i, blocks[n]? = some b → i < b.lines.length →
      keep (start + (blockStart blocks n + i)) = keepBlock (first + n)) :
    (pick keepBlock first blocks).flatMap BasicBlock.lines =
      pick keep start (blocks.flatMap BasicBlock.lines) := by
  induction blocks generalizing start first with
  | nil => rfl
  | cons b blocks ih =>
      have here : ∀ i, i < b.lines.length → keep (start + i) = keepBlock first := by
        intro i bound
        simpa using agree 0 b i rfl bound
      have others : (pick keepBlock (first + 1) blocks).flatMap BasicBlock.lines =
          pick keep (start + b.lines.length) (blocks.flatMap BasicBlock.lines) := by
        apply ih
        intro n c i there bound
        have same := agree (n + 1) c i there bound
        rw [blockStart_cons_succ] at same
        rw [succ_add_place, ← same]
        congr 1
        omega
      rw [List.flatMap_cons, pick_append, ← others, pick]
      cases found : keepBlock first with
      | true =>
          rw [if_pos rfl, List.flatMap_cons, pick_eq_self fun i bound => (here i bound).trans found]
      | false =>
          rw [if_neg Bool.false_ne_true, pick_eq_nil fun i bound => (here i bound).trans found, List.nil_append]

/-- The search by blocks leaves the same lines as the search by lines. -/
theorem shakeBlocks_eq_reachableLines (lines : List Line) : shakeBlocks lines = reachableLines lines := by
  have cut := cuts_cutBlocks lines
  have agree : ∀ n b i, (cutBlocks lines)[n]? = some b → i < b.lines.length →
      keptPlaces lines (0 + (blockStart (cutBlocks lines) n + i)) =
        keptBlocks (cutBlocks lines) (0 + n) := by
    intro n b i here bound
    have line := List.getElem?_eq_getElem bound
    rw [Nat.zero_add, Nat.zero_add, Bool.eq_iff_iff, keptPlaces_iff_live (cut.line here line),
      keptBlocks_iff here, cut.found_iff_live here line]
  rw [shakeBlocks, reachableBlocks_eq_pick, flatMap_pick agree, cut.whole, reachableLines_eq_pick]

end Whitespace.Assembly

/-
Module: Whitespace.Proofs.MemoryRoutines
Purpose: The routines of the library for memory. The allocator keeps the address of the next free cell in
  cell 0, so that the regions that it hands out follow one another and never overlap, whatever a program does
  between its calls, as long as it leaves that cell alone. A block of cells is filled, and the length of a text
  is measured, by loops that touch exactly the cells that they are asked about.
Main exports: MemoryRoutine, Region, HandedOut, Allocates, fillCells, Zeroed, reaches_fill, reaches_measure,
  memory_routines_exact
-/
import Whitespace.Proofs.CompletedInstructions
import Whitespace.Proofs.Routines

namespace Whitespace

open Whitespace.Configuration (Reaches)
open Machine (heap_getElem?_insert checkedAddress_of_eq checkedAddress_of_room)

namespace Assembly

/-! ### The lines of the routines -/

/-- The routines, in the order of the library. -/
inductive MemoryRoutine where
  /-- Prepares the allocator. -/
  | init
  /-- Hands out a region of a size. -/
  | alloc
  /-- Writes a value into a number of cells from an address on. -/
  | fill
  /-- Counts the cells of the text at an address. -/
  | measure
deriving Repr, DecidableEq

namespace MemoryRoutine

/-- The label that the routine starts with. -/
def name : MemoryRoutine → String
  | init => "memory_init"
  | alloc => "alloc"
  | fill => "memfill"
  | measure => "strlen"

/-- The label that follows the routine. -/
def next : MemoryRoutine → String
  | init => "alloc"
  | alloc => "memfill"
  | fill => "strlen"
  | measure => "__memory_end"

def code (routine : MemoryRoutine) (options : Options) : List Symbolic :=
  Library.routine options "memory" routine.name routine.next

/-- The statements of the routine. -/
def statements : MemoryRoutine → List Statement
  | init => [.label "memory_init", .push 0, .push 1024, .store none, .plain (.flow .ret)]
  | alloc =>
    [.label "alloc", .push 0, .retrieve none, .plain (.stack .swap), .copy 1, .arithmetic .add none, .push 0,
      .plain (.stack .swap), .store none, .plain (.flow .ret)]
  | fill =>
    [.label "memfill", .label "__memory_fill_loop", .copy 1, .jump .zero "__memory_fill_done",
      .plain (.stack .duplicate), .copy 3, .store none, .arithmetic .add (some 1), .plain (.stack .swap),
      .arithmetic .subtract (some 1), .plain (.stack .swap), .jump .always "__memory_fill_loop",
      .label "__memory_fill_done", .plain (.stack .discard), .plain (.stack .discard), .plain (.stack .discard),
      .plain (.flow .ret)]
  | measure =>
    [.label "strlen", .push 0, .label "__memory_strlen_loop", .copy 1, .copy 1, .arithmetic .add none,
      .retrieve none, .jump .zero "__memory_strlen_done", .arithmetic .add (some 1),
      .jump .always "__memory_strlen_loop", .label "__memory_strlen_done", .slide 1, .plain (.flow .ret)]

end MemoryRoutine

/-- The memory library, statement by statement. -/
theorem Library.statements_memory (options : Options) : statements options "memory" =
    ((.jump .always "__memory_end" :: (MemoryRoutine.init.statements ++ MemoryRoutine.alloc.statements ++
      MemoryRoutine.fill.statements ++ MemoryRoutine.measure.statements ++ [.label "__memory_end"]) :
        List Statement)).map some := by
  obtain ⟨_ | _⟩ := options
  all_goals
    apply statements_of_toList rfl
    · repeat apply map_toList_cons
      exact List.map_nil
    · decide +kernel

theorem MemoryRoutine.code_eq (routine : MemoryRoutine) (options : Options) :
    routine.code options = routine.statements.flatMap Statement.symbolic := by
  cases routine
  all_goals
    rw [code, Library.routine, Library.statements_memory]
    rfl

/-- The program holds a copy of every routine. -/
def HoldsMemory (program : Program) (address : Reference → Label) (options : Options) : Prop :=
  ∀ routine : MemoryRoutine, ∃ place, CopyAt program address place (routine.code options)

theorem MemoryRoutine.target {program : Program} {address : Reference → Label} {options : Options} {place : Nat}
    {routine : MemoryRoutine} (copy : CopyAt program address place (routine.code options)) :
    program.target? (address (.named routine.name)) = some (place + 1) := by
  apply copy.marked (d := 0)
  rw [code_eq]
  cases routine <;> rfl

end Assembly

/-! ### Regions -/

/-- Consecutive cells that were handed out together. -/
structure Region where
  address : Nat
  size : Nat

namespace Region

def stop (r : Region) : Nat := r.address + r.size

def Holds (r : Region) (k : Nat) : Prop := r.address ≤ k ∧ k < r.stop

end Region

/-- Regions in the order in which they were handed out: the first one starts at 1024, each one lies behind those
    before it, and no two have a cell in common. -/
structure HandedOut (regions : List Region) : Prop where
  first : ∀ r ∈ regions.head?, r.address = 1024
  ascending : regions.Pairwise fun r r' => r.stop ≤ r'.address
  apart : regions.Pairwise fun r r' => ∀ k, ¬(r.Holds k ∧ r'.Holds k)

/-- The regions end where the next one is to start. -/
structure HandedOutUpTo (next : Nat) (regions : List Region) : Prop extends HandedOut regions where
  below : ∀ r ∈ regions, r.stop ≤ next
  start : regions = [] → next = 1024

namespace HandedOutUpTo

variable {next : Nat} {regions : List Region}

theorem nil : HandedOutUpTo 1024 [] where
  first := nofun
  ascending := .nil
  apart := .nil
  below := nofun
  start := fun _ => rfl

/-- One more region is handed out behind the others. -/
theorem concat (upTo : HandedOutUpTo next regions) (size : Nat) :
    HandedOutUpTo (next + size) (regions ++ [⟨next, size⟩]) where
  first := by
    intro r front
    cases regions with
    | nil =>
        cases front
        exact upTo.start rfl
    | cons r' rest => exact upTo.first r front
  ascending := by
    rw [List.pairwise_append]
    refine ⟨upTo.ascending, List.pairwise_singleton _ _, fun r member r' last => ?_⟩
    rw [List.mem_singleton] at last
    subst last
    exact upTo.below r member
  apart := by
    rw [List.pairwise_append]
    refine ⟨upTo.apart, List.pairwise_singleton _ _, fun r member r' last => ?_⟩
    rw [List.mem_singleton] at last
    subst last
    rintro k ⟨before, behind⟩
    exact absurd (upTo.below r member) (Nat.not_le_of_lt (Nat.lt_of_le_of_lt behind.1 before.2))
  below := by
    intro r member
    rcases List.mem_append.1 member with before | last
    · exact Nat.le_add_right_of_le (upTo.below r before)
    · rw [List.mem_singleton] at last
      subst last
      exact Nat.le_refl _
  start := fun empty => by simp at empty

end HandedOutUpTo

/-! ### Cells -/

namespace Machine

/-- Writes a value into a number of cells from an address on. -/
def fillCells (v : Int) : Heap → Nat → Nat → Heap
  | heap, _, 0 => heap
  | heap, base, count + 1 => fillCells v (heap.insert base v) (base + 1) count

/-- The cells from the address on have the value, and no other cell is written. -/
theorem fillCells_getElem? (v : Int) (heap : Heap) (base count k : Nat) :
    (fillCells v heap base count)[k]? = if base ≤ k ∧ k < base + count then some v else heap[k]? := by
  induction count generalizing heap base with
  | zero => rw [fillCells, if_neg (by omega)]
  | succ count ih =>
      rw [fillCells, ih, heap_getElem?_insert]
      split_ifs <;> first | rfl | omega

/-- From an address on there are a number of cells that are not zero, and then one that is; all of them have
    been written. -/
structure Zeroed (heap : Heap) (base length : Nat) : Prop where
  nonzero {i : Nat} : i < length → ∃ v, heap[base + i]? = some v ∧ v ≠ 0
  zero : heap[base + length]? = some 0

theorem Heap.Bounded.le {heap : Heap} (bounded : Heap.Bounded heap) {address : Nat} {v : Int}
    (cell : heap[address]? = some v) : address ≤ maxAddress :=
  bounded address (Std.TreeMap.mem_iff_isSome_getElem?.2 (by rw [cell]; rfl))

/-- No run writes beyond the largest address. -/
theorem Runs.bounded {program : Program} {m m' : Machine} (runs : Runs program m m')
    (bounded : Heap.Bounded m.state.heap) : Heap.Bounded m'.state.heap := by
  induction runs with
  | refl => exact bounded
  | tail _ stepped ih =>
      have kept := bounded_step program ih
      rwa [stepped] at kept

end Machine

namespace Assembly

/-! ### The routines -/

section

variable {program : Program} {address : Reference → Label} {options : Options} {place base : Nat} {v : Int}
  {c : Configuration}

theorem subroutine_init
    (copy : CopyAt program address place (MemoryRoutine.init.statements.flatMap Statement.symbolic)) :
    Subroutine program (place + 1) c (c.write 0 1024) := by
  have checked : Machine.checkedAddress 0 = .ok 0 := rfl
  refine CopyAt.subroutine_straight [pushOf 0, pushOf 1024, .heap .store] copy ?_
  simp [Configuration.work_store _ checked]

/-- The allocator hands out the cells from the next free one on. -/
theorem subroutine_alloc {next : Nat}
    (copy : CopyAt program address place (MemoryRoutine.alloc.statements.flatMap Statement.symbolic))
    (free : c.heap[0]? = some (next : Int)) (size : Nat) :
    Subroutine program (place + 1) (c.pushAll [(size : Int)])
      ((c.write 0 ((next + size : Nat) : Int)).pushAll [(next : Int)]) := by
  have checked : Machine.checkedAddress 0 = .ok 0 := rfl
  refine CopyAt.subroutine_straight [pushOf 0, .heap .retrieve, .stack .swap, .stack (.copy 1),
    .arithmetic .add, pushOf 0, .stack .swap, .heap .store] copy ?_
  simp [Configuration.work_retrieve _ checked, Configuration.work_store _ checked, free, Int.add_comm]

/-- One turn of the loop that fills writes one cell. -/
theorem workAll_fill (checked : Machine.checkedAddress base = .ok base) (v count : Int) :
    (c.pushAll [v, count, base]).workAll [.stack .duplicate, .stack (.copy 3), .heap .store, pushOf 1,
        .arithmetic .add, .stack .swap, pushOf 1, .arithmetic .subtract, .stack .swap] =
      some ((c.write base v).pushAll [v, count - 1, ((base + 1 : Nat) : Int)]) := by
  simp [Configuration.work_store _ checked]

/-- The loop that fills goes on until no cell is left. -/
theorem reaches_fill
    (copy : CopyAt program address place (MemoryRoutine.fill.statements.flatMap Statement.symbolic)) {count : Nat}
    (room : base + count ≤ Machine.maxAddress + 1) :
    Reaches program ((c.pushAll [v, count, base]).runningAt (place + 2))
      ({ c with heap := Machine.fillCells v c.heap base count }.runningAt (place + 18)) := by
  have looks (c : Configuration) (base : Nat) (count : Int) :
      Reaches program ((c.pushAll [v, count, base]).runningAt (place + 2))
        ((c.pushAll [v, count, base, count]).runningAt (place + 3)) :=
    copy.straight 2 [.stack (.copy 1)] rfl rfl (by simp)
  induction count generalizing base c with
  | zero =>
      calc
        Reaches program _ _ := looks c base 0
        Reaches program _ ((c.pushAll [v, 0, base]).runningAt (place + 15)) := copy.jumpZero 3 14 rfl rfl
        Reaches program _ (c.runningAt (place + 18)) :=
          copy.straight 15 [.stack .discard, .stack .discard, .stack .discard] rfl rfl (by simp)
  | succ count ih =>
      have checked : Machine.checkedAddress base = .ok base := checkedAddress_of_eq rfl (by omega)
      have nonzero : ((count + 1 : Nat) : Int) ≠ 0 := by omega
      have less : ((count + 1 : Nat) : Int) - 1 = count := by omega
      calc
        Reaches program _ _ := looks c base (count + 1 : Nat)
        Reaches program _ ((c.pushAll [v, (count + 1 : Nat), base]).runningAt (place + 4)) :=
          copy.jumpZero_of_ne 3 14 nonzero rfl rfl
        Reaches program _
            (((c.write base v).pushAll [v, count, ((base + 1 : Nat) : Int)]).runningAt (place + 13)) := by
          rw [← less]
          exact copy.straight 4 _ rfl rfl (workAll_fill checked v (count + 1 : Nat))
        Reaches program _
            (((c.write base v).pushAll [v, count, ((base + 1 : Nat) : Int)]).runningAt (place + 2)) :=
          copy.jump 13 1 rfl rfl
        Reaches program _ _ := ih (c := c.write base v) (by omega)

/-- The routine for `memfill` writes its value to as many cells as asked for, from the base on. -/
theorem subroutine_fill
    (copy : CopyAt program address place (MemoryRoutine.fill.statements.flatMap Statement.symbolic)) {count : Nat}
    (room : base + count ≤ Machine.maxAddress + 1) :
    Subroutine program (place + 1) (c.pushAll [v, count, base])
      { c with heap := Machine.fillCells v c.heap base count } := by
  intro back
  calc
    Reaches program (((c.called back).pushAll [v, count, base]).runningAt (place + 1))
        (((c.called back).pushAll [v, count, base]).runningAt (place + 2)) := copy.mark 1 rfl
    Reaches program _
        (({ c with heap := Machine.fillCells v c.heap base count }.called back).runningAt (place + 18)) :=
      reaches_fill (c := c.called back) copy room
    Reaches program _ _ := copy.leave 18 rfl

theorem workAll_look {i : Nat} (checked : Machine.checkedAddress ((base + i : Nat) : Int) = .ok (base + i))
    (cell : c.heap[base + i]? = some v) :
    (c.pushAll [base, i]).workAll [.stack (.copy 1), .stack (.copy 1), .arithmetic .add, .heap .retrieve] =
      some (c.pushAll [base, i, v]) := by
  rw [Int.natCast_add] at checked
  simp [Configuration.work_retrieve _ checked, cell]

/-- The loop that measures goes on to the first cell that is zero. -/
theorem reaches_measure
    (copy : CopyAt program address place (MemoryRoutine.measure.statements.flatMap Statement.symbolic))
    {counted left : Nat} (zeroed : Machine.Zeroed c.heap base (counted + left))
    (bounded : Machine.Heap.Bounded c.heap) :
    Reaches program ((c.pushAll [base, counted]).runningAt (place + 3))
      ((c.pushAll [base, (counted + left : Nat)]).runningAt (place + 12)) := by
  have looks {i : Nat} {v : Int} (cell : c.heap[base + i]? = some v) :
      Reaches program ((c.pushAll [base, i]).runningAt (place + 3))
        ((c.pushAll [base, i, v]).runningAt (place + 7)) :=
    copy.straight 3 _ rfl rfl (workAll_look (checkedAddress_of_eq rfl (bounded.le cell)) cell)
  induction left generalizing counted with
  | zero =>
      calc
        Reaches program _ _ := looks zeroed.zero
        Reaches program _ ((c.pushAll [base, counted]).runningAt (place + 12)) := copy.jumpZero 7 11 rfl rfl
  | succ left ih =>
      obtain ⟨v, cell, nonzero⟩ := zeroed.nonzero (i := counted) (by omega)
      have moved : counted + (left + 1) = counted + 1 + left := by omega
      rw [moved] at zeroed ⊢
      calc
        Reaches program _ _ := looks cell
        Reaches program _ ((c.pushAll [base, counted]).runningAt (place + 8)) :=
          copy.jumpZero_of_ne 7 11 nonzero rfl rfl
        Reaches program _ ((c.pushAll [base, (counted + 1 : Nat)]).runningAt (place + 10)) :=
          copy.straight 8 [pushOf 1, .arithmetic .add] rfl rfl (by simp)
        Reaches program _ ((c.pushAll [base, (counted + 1 : Nat)]).runningAt (place + 3)) :=
          copy.jump 10 2 rfl rfl
        Reaches program _ _ := ih zeroed

/-- The routine for `strlen` counts the cells in front of the first zero. -/
theorem subroutine_measure
    (copy : CopyAt program address place (MemoryRoutine.measure.statements.flatMap Statement.symbolic))
    {length : Nat} (zeroed : Machine.Zeroed c.heap base length) (bounded : Machine.Heap.Bounded c.heap) :
    Subroutine program (place + 1) (c.pushAll [(base : Int)]) (c.pushAll [(length : Int)]) := by
  intro back
  have zeroed' : Machine.Zeroed (c.called back).heap base (0 + length) := by
    rw [Nat.zero_add]
    exact zeroed
  have measured := reaches_measure copy zeroed' bounded
  rw [Nat.zero_add] at measured
  calc
    Reaches program (((c.called back).pushAll [(base : Int)]).runningAt (place + 1))
        (((c.called back).pushAll [base, 0]).runningAt (place + 2)) :=
      copy.straight 1 [pushOf 0] rfl rfl (by simp)
    Reaches program _ (((c.called back).pushAll [base, 0]).runningAt (place + 3)) := copy.mark 2 rfl
    Reaches program _ (((c.called back).pushAll [base, length]).runningAt (place + 12)) := measured
    Reaches program _ (((c.called back).pushAll [(length : Int)]).runningAt (place + 13)) :=
      copy.straight 12 [.stack (.slide 1)] rfl rfl (by simp)
    Reaches program _ ((c.pushAll [(length : Int)]).runningAt back) :=
      copy.leave (c := c.pushAll [(length : Int)]) 13 rfl

end

/-! ### Calls -/

/-- Calls of the allocator for regions of the given sizes, made one after another by a program that leaves cell 0
    alone in between: each call comes back with the address of a region in the place of its size, all else being
    as it was apart from cell 0, and with the regions that were handed out before, the new one is handed out in
    order. -/
def Allocates (program : Program) (address : Reference → Label) : List Nat → List Region → Machine → Prop
  | [], _, _ => True
  | size :: more, regions, m =>
    ∀ rest : Machine.Stack, m.Calling program (address (.named "alloc")) [(size : Int)] rest →
      ∃ (r : Region) (heap : Machine.Heap), r.size = size ∧
        m.Returns program { m.configuration with stack := rest.push r.address, heap } ∧
        (∀ k ≠ 0, heap[k]? = m.state.heap[k]?) ∧ HandedOut (regions ++ [r]) ∧
        ∀ m' : Machine, m'.state.heap[0]? = heap[0]? → Allocates program address more (regions ++ [r]) m'

section

variable {program : Program} {address : Reference → Label} {options : Options} {m : Machine}
  {rest : Machine.Stack}

/-- A machine that calls a routine gets back with what the code of the routine does, wherever its copy stands. -/
theorem HoldsMemory.returns (held : HoldsMemory program address options) (routine : MemoryRoutine)
    {arguments : List Int} {d : Configuration}
    (does : ∀ place, CopyAt program address place (routine.statements.flatMap Statement.symbolic) →
      Subroutine program (place + 1) ({ m.configuration with stack := rest }.pushAll arguments) d)
    (calling : m.Calling program (address (.named routine.name)) arguments rest) : m.Returns program d := by
  obtain ⟨place, copy⟩ := held routine
  have target := MemoryRoutine.target copy
  rw [MemoryRoutine.code_eq] at copy
  exact Subroutine.returns calling target (does place copy)

/-- As long as cell 0 holds the address of the next free cell, regions are handed out in order. -/
theorem allocates_of_upTo (held : HoldsMemory program address options) (sizes : List Nat) {next : Nat}
    {regions : List Region} (upTo : HandedOutUpTo next regions)
    (free : m.state.heap[0]? = some (next : Int)) : Allocates program address sizes regions m := by
  induction sizes generalizing m next regions with
  | nil => trivial
  | cons size more ih =>
      intro rest calling
      have returned := held.returns .alloc (fun _ copy => subroutine_alloc copy free size) calling
      refine ⟨⟨next, size⟩, _, rfl, returned, ?_, ?_, ?_⟩
      · intro k other
        exact (heap_getElem?_insert m.state.heap 0 k _).trans (if_neg other.symm)
      · exact (upTo.concat size).toHandedOut
      · intro m' same
        exact ih (upTo.concat size) (same.trans ((heap_getElem?_insert _ 0 0 _).trans (if_pos rfl)))

end

/-- The routines for memory are exact. In a program that holds a copy of their code, every call gets back with its
    arguments taken off the stack, and all is as it was but for what follows. Once the allocator is prepared, it
    hands out regions in order, by whatever calls, as long as the program leaves cell 0 alone in between. A value
    is written into exactly the cells that it is to fill, up to the last one that there is. And where all cells
    from an address up to the first zero have been written, the number of those before the zero is left on the
    stack, in every machine that a run has come to from a heap without cells beyond the largest address. -/
theorem memory_routines_exact {program : Program} {address : Reference → Label} {options : Options}
    (held : HoldsMemory program address options) :
    (∀ (m : Machine) (rest : Machine.Stack), m.Calling program (address (.named "memory_init")) [] rest →
      ∃ heap : Machine.Heap, m.Returns program { m.configuration with stack := rest, heap } ∧
        (∀ k ≠ 0, heap[k]? = m.state.heap[k]?) ∧
        ∀ (sizes : List Nat) (m' : Machine), m'.state.heap[0]? = heap[0]? →
          Allocates program address sizes [] m') ∧
    (∀ (m : Machine) (rest : Machine.Stack) (v : Int) (count base : Nat), base + count ≤ 2 ^ 53 →
      m.Calling program (address (.named "memfill")) [v, count, base] rest →
      ∃ heap : Machine.Heap, m.Returns program { m.configuration with stack := rest, heap } ∧
        ∀ k, heap[k]? = if base ≤ k ∧ k < base + count then some v else m.state.heap[k]?) ∧
    ∀ (start m : Machine) (rest : Machine.Stack) (base length : Nat), Machine.Heap.Bounded start.state.heap →
      Machine.Runs program start m → Machine.Zeroed m.state.heap base length →
      m.Calling program (address (.named "strlen")) [(base : Int)] rest →
      m.Returns program { m.configuration with stack := rest.push length } := by
  refine ⟨?_, ?_, ?_⟩
  · intro m rest calling
    have returned := held.returns .init (fun _ copy => subroutine_init copy) calling
    refine ⟨_, returned, ?_, ?_⟩
    · intro k other
      exact (heap_getElem?_insert m.state.heap 0 k _).trans (if_neg other.symm)
    · intro sizes m' same
      exact allocates_of_upTo held sizes .nil (same.trans ((heap_getElem?_insert _ 0 0 _).trans (if_pos rfl)))
  · intro m rest v count base room calling
    have returned := held.returns .fill (fun _ copy => subroutine_fill copy room) calling
    exact ⟨_, returned, Machine.fillCells_getElem? v _ base count⟩
  · intro start m rest base length bounded runs zeroed calling
    exact held.returns .measure (fun _ copy => subroutine_measure copy zeroed (runs.bounded bounded)) calling

/-- A region is handed out, the last two cells are filled, and a text of two characters is measured. -/
theorem memory_routines_exact_mixed :
    let main : List Statement := [.call "memory_init", .push 5, .call "alloc", .push 7, .push 2,
      .push 9007199254740990, .call "memfill", .push 100, .call "strlen", .plain (.flow .exit)]
    let p : LineProgram := (main ++ (MemoryRoutine.init.statements ++ (MemoryRoutine.alloc.statements ++
      (MemoryRoutine.fill.statements ++ MemoryRoutine.measure.statements)))).map some
    let program := Program.ofInstructions p.code
    let machine (stack : List Int) (heap : Machine.Heap) (pc : Nat) : Machine :=
      { state := { stack := stack.foldl Machine.Stack.push .empty, heap, pc }, input := ⟨.ofText "", []⟩ }
    let text := (((∅ : Machine.Heap).insert 100 104).insert 101 105).insert 102 0
    HoldsMemory program (p.address 0) {} ∧
      (∃ heap : Machine.Heap,
        (machine [] ∅ 0).Returns program (machine [] heap 0).configuration ∧
        ∃ heap' : Machine.Heap, (machine [5] heap 2).Returns program (machine [1024] heap' 2).configuration ∧
          ∀ k ≠ 0, heap'[k]? = heap[k]?) ∧
      (∃ heap : Machine.Heap, (machine [7, 2, 9007199254740990] ∅ 6).Returns program
          (machine [] heap 6).configuration ∧
        heap[9007199254740991]? = some 7 ∧ heap[9007199254740989]? = none) ∧
      (machine [100] text 8).Returns program (machine [2] text 8).configuration := by
  intro main p program machine text
  have held : HoldsMemory program (p.address 0) {} := by
    intro routine
    cases routine with
    | init =>
        refine ⟨p.place 10, ?_⟩
        rw [MemoryRoutine.code_eq]
        exact @copyAt_statements p main _ _ rfl (by decide +kernel) (by decide +kernel) (by decide +kernel)
    | alloc =>
        refine ⟨p.place 15, ?_⟩
        rw [MemoryRoutine.code_eq]
        exact @copyAt_statements p (main ++ MemoryRoutine.init.statements) _
          (MemoryRoutine.fill.statements ++ MemoryRoutine.measure.statements) rfl (by decide +kernel)
          (by decide +kernel) (by decide +kernel)
    | fill =>
        refine ⟨p.place 25, ?_⟩
        rw [MemoryRoutine.code_eq]
        exact @copyAt_statements p (main ++ (MemoryRoutine.init.statements ++ MemoryRoutine.alloc.statements)) _
          MemoryRoutine.measure.statements rfl (by decide +kernel) (by decide +kernel) (by decide +kernel)
    | measure =>
        refine ⟨p.place 42, ?_⟩
        rw [MemoryRoutine.code_eq]
        exact @copyAt_statements p (main ++ (MemoryRoutine.init.statements ++ (MemoryRoutine.alloc.statements ++
          MemoryRoutine.fill.statements))) _ [] rfl (by decide +kernel) (by decide +kernel) (by decide +kernel)
  obtain ⟨allocator, fills, measures⟩ := memory_routines_exact held
  refine ⟨held, ?_, ?_, ?_⟩
  · obtain ⟨heap, returned, -, allocates⟩ := allocator (machine [] ∅ 0) .empty ⟨rfl, by decide +kernel, rfl⟩
    have here : program.instruction? 2 = some (.flow (.call (p.address 0 (.named "alloc")))) := by decide +kernel
    obtain ⟨r, heap', size, returned', kept, handedOut, -⟩ :=
      allocates [5] (machine [5] heap 2) rfl .empty ⟨rfl, here, rfl⟩
    have start : r.address = 1024 := handedOut.first r rfl
    rw [start] at returned'
    exact ⟨heap, returned, heap', returned', kept⟩
  · obtain ⟨heap, returned, cells⟩ := fills (machine [7, 2, 9007199254740990] ∅ 6) .empty 7 2 9007199254740990
      (by decide) ⟨rfl, by decide +kernel, rfl⟩
    exact ⟨heap, returned, cells _, cells _⟩
  · have zeroed : Machine.Zeroed text 100 2 := by
      refine ⟨fun {i} small => ?_, by decide +kernel⟩
      match i, small with
      | 0, _ => exact ⟨104, by decide +kernel, by decide⟩
      | 1, _ => exact ⟨105, by decide +kernel, by decide⟩
    have empty : Machine.Heap.Bounded ∅ := fun _ member => absurd member Std.TreeMap.not_mem_emptyc
    have bounded : Machine.Heap.Bounded text :=
      ((empty.insert (show Machine.checkedAddress 100 = .ok 100 from rfl) 104).insert
        (show Machine.checkedAddress 101 = .ok 101 from rfl) 105).insert
        (show Machine.checkedAddress 102 = .ok 102 from rfl) 0
    exact measures _ _ .empty 100 2 bounded .refl zeroed ⟨rfl, by decide +kernel, rfl⟩

end Assembly

end Whitespace

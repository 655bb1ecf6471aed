/-
Module: Whitespace.Proofs.VectorRoutines
Purpose: Vectors in memory are lists. The cell at the address of a vector holds its length, and the cells after
  it hold its elements; every routine of the libraries for vectors and for containers takes this from one list
  to the next and gives back what the list gives, and so does every sequence of calls.
Main exports: HoldsVector, VectorCall, VectorCall.Does, VectorCall.Does.exists_subroutine, Machine.KeepsVector,
  vectors_are_lists
-/
import Whitespace.Proofs.Routines

namespace Whitespace

open Machine (heap_getElem?_insert checkedAddress_of_eq checkedAddress_of_room)

namespace Assembly

/-! ### The lines of the routines -/

/-- A call of one of the routines on a vector, in the order of the routines in their libraries. -/
inductive VectorCall where
  | new
  | length
  | push (v : Int)
  | get (i : Nat)
  | set (i : Nat) (v : Int)
  | containerNew
  | containerPush (v : Int)
  | pop
  | peek
  | size

namespace VectorCall

/-- The library of the routine, the label that it starts with, and the label that follows it. -/
def origin : VectorCall → String × String × String
  | new => ("vector", "vector_new", "vector_len")
  | length => ("vector", "vector_len", "vector_push")
  | push _ => ("vector", "vector_push", "vector_get")
  | get _ => ("vector", "vector_get", "vector_set")
  | set _ _ => ("vector", "vector_set", "__vector_end")
  | containerNew => ("memcontainer", "memcontainer_new", "memcontainer_push")
  | containerPush _ => ("memcontainer", "memcontainer_push", "memcontainer_pop")
  | pop => ("memcontainer", "memcontainer_pop", "memcontainer_peek")
  | peek => ("memcontainer", "memcontainer_peek", "memcontainer_size")
  | size => ("memcontainer", "memcontainer_size", "__memcontainer_end")

def name (call : VectorCall) : String := call.origin.2.1

def routine (call : VectorCall) (options : Options) : List Symbolic :=
  Library.routine options call.origin.1 call.name call.origin.2.2

/-- What the routine does between its label and its return. -/
def body : VectorCall → List Statement
  | new => [.plain (.stack .duplicate), .push 0, .store none]
  | length | size => [.retrieve none]
  | push _ =>
    [.copy 1, .retrieve none, .copy 2, .arithmetic .add none, .arithmetic .add (some 1), .plain (.stack .swap),
      .store none, .plain (.stack .duplicate), .retrieve none, .arithmetic .add (some 1), .store none]
  | get _ => [.arithmetic .add none, .arithmetic .add (some 1), .retrieve none]
  | set _ _ =>
    [.copy 2, .copy 2, .arithmetic .add none, .arithmetic .add (some 1), .plain (.stack .swap), .store none,
      .plain (.stack .discard), .plain (.stack .discard)]
  | containerNew => [.call "vector_new"]
  | containerPush _ => [.call "vector_push"]
  | pop =>
    [.plain (.stack .duplicate), .retrieve none, .arithmetic .subtract (some 1), .copy 1, .copy 1, .store none,
      .arithmetic .add none, .arithmetic .add (some 1), .retrieve none]
  | peek => [.plain (.stack .duplicate), .retrieve none, .arithmetic .add none, .retrieve none]

def statements (call : VectorCall) : List Statement :=
  .label call.name :: (call.body ++ [.plain (.flow .ret)])

end VectorCall

/-- The vector library, statement by statement. -/
theorem Library.statements_vector (options : Options) : statements options "vector" =
    ((.jump .always "__vector_end" :: (VectorCall.new.statements ++ VectorCall.length.statements ++
      (VectorCall.push 0).statements ++ (VectorCall.get 0).statements ++ (VectorCall.set 0 0).statements ++
      [.label "__vector_end"]) : List Statement)).map some := by
  obtain ⟨_ | _⟩ := options
  all_goals
    apply statements_of_toList rfl
    · repeat apply map_toList_cons
      exact List.map_nil
    · decide +kernel

/-- The container library, statement by statement. -/
theorem Library.statements_memcontainer (options : Options) : statements options "memcontainer" =
    ((.jump .always "__memcontainer_end" :: (VectorCall.containerNew.statements ++
      (VectorCall.containerPush 0).statements ++ VectorCall.pop.statements ++ VectorCall.peek.statements ++
      VectorCall.size.statements ++ [.label "__memcontainer_end"]) : List Statement)).map some := by
  obtain ⟨_ | _⟩ := options
  all_goals
    apply statements_of_toList rfl
    · repeat apply map_toList_cons
      exact List.map_nil
    · decide +kernel

theorem VectorCall.routine_eq (call : VectorCall) (options : Options) :
    call.routine options = call.statements.flatMap Statement.symbolic := by
  cases call
  all_goals
    simp only [routine, origin, name, Library.routine, Library.statements_vector, Library.statements_memcontainer]
    rfl

/-! ### Lists -/

namespace VectorCall

/-- The arguments of the call, the one on top of the stack last. -/
def arguments (base : Nat) : VectorCall → List Int
  | new | length | containerNew | pop | peek | size => [base]
  | push v | containerPush v => [base, v]
  | get i => [base, i]
  | set i v => [base, i, v]

/-- What a call does to the list of a vector, and what it gives back. Nothing need be known of the list before
    a vector is made; there must be room for what is pushed, an index must be that of an element, and nothing
    is taken from the empty list. -/
inductive Does (base : Nat) : Option (List Int) → VectorCall → List Int → List Int → Prop where
  | new {before : Option (List Int)} : base ≤ Machine.maxAddress → Does base before .new [base] []
  | length {xs : List Int} : Does base (some xs) .length [xs.length] xs
  | push {xs : List Int} {v : Int} : base + (xs.length + 1) ≤ Machine.maxAddress →
      Does base (some xs) (.push v) [] (xs ++ [v])
  | get {xs : List Int} {i : Nat} {v : Int} : xs[i]? = some v → Does base (some xs) (.get i) [v] xs
  | set {xs : List Int} {i : Nat} {v : Int} : i < xs.length → Does base (some xs) (.set i v) [] (xs.set i v)
  | containerNew {before : Option (List Int)} : base ≤ Machine.maxAddress →
      Does base before .containerNew [base] []
  | containerPush {xs : List Int} {v : Int} : base + (xs.length + 1) ≤ Machine.maxAddress →
      Does base (some xs) (.containerPush v) [] (xs ++ [v])
  | pop {xs : List Int} {v : Int} : Does base (some (xs ++ [v])) .pop [v] xs
  | peek {xs : List Int} {v : Int} : Does base (some (xs ++ [v])) .peek [v] (xs ++ [v])
  | size {xs : List Int} : Does base (some xs) .size [xs.length] xs

/-- The heap after a call for a list of the given length. -/
def heapAfter (base : Nat) (heap : Machine.Heap) (length : Nat) : VectorCall → Machine.Heap
  | new | containerNew => heap.insert base 0
  | push v | containerPush v => (heap.insert (base + length + 1) v).insert base (length + 1)
  | set i v => heap.insert (base + i + 1) v
  | pop => heap.insert base (length - 1)
  | .length | get _ | peek | size => heap

/-- The length of a list that may not be there yet. -/
def lengthOf (before : Option (List Int)) : Nat := (before.getD []).length

end VectorCall

end Assembly

/-- The heap holds a list at an address: the length in the cell there, and the elements in the cells after it. -/
structure HoldsVector (heap : Machine.Heap) (base : Nat) (xs : List Int) : Prop where
  length : heap[base]? = some (xs.length : Int)
  element {i : Nat} {v : Int} : xs[i]? = some v → heap[base + i + 1]? = some v
  bound : base + xs.length ≤ Machine.maxAddress

namespace HoldsVector

variable {heap : Machine.Heap} {base : Nat} {xs : List Int}

theorem empty (heap : Machine.Heap) (room : base ≤ Machine.maxAddress) :
    HoldsVector (heap.insert base 0) base [] where
  length := by simp
  element := nofun
  bound := room

/-- A value written behind the last one, and the length counted up, hold the longer list. -/
theorem append (held : HoldsVector heap base xs) (v : Int) (room : base + (xs.length + 1) ≤ Machine.maxAddress) :
    HoldsVector ((heap.insert (base + xs.length + 1) v).insert base (xs.length + 1)) base (xs ++ [v]) where
  length := by simp
  element := by
    intro i w found
    rw [heap_getElem?_insert, if_neg (by omega), heap_getElem?_insert]
    by_cases last : i = xs.length
    · subst last
      rw [if_pos rfl]
      simpa using found
    · have inside : i < xs.length := by
        have bound := (List.getElem?_eq_some_iff.1 found).1
        rw [List.length_append, List.length_singleton] at bound
        omega
      rw [if_neg (by omega)]
      rw [List.getElem?_append_left inside] at found
      exact held.element found
  bound := by
    rw [List.length_append, List.length_singleton]
    exact room

/-- A value written at an index holds the list with that value. -/
theorem set (held : HoldsVector heap base xs) (i : Nat) (v : Int) :
    HoldsVector (heap.insert (base + i + 1) v) base (xs.set i v) where
  length := by
    rw [heap_getElem?_insert, if_neg (by omega), List.length_set]
    exact held.length
  element := by
    intro j w found
    rw [heap_getElem?_insert]
    by_cases same : i = j
    · subst same
      have inside : i < xs.length := by
        have bound := (List.getElem?_eq_some_iff.1 found).1
        rwa [List.length_set] at bound
      rw [List.getElem?_set_self inside] at found
      rw [if_pos rfl]
      exact found
    · rw [List.getElem?_set_ne same] at found
      rw [if_neg (by omega)]
      exact held.element found
  bound := by
    rw [List.length_set]
    exact held.bound

/-- The length counted down holds the list without its last value. -/
theorem dropLast {v : Int} (held : HoldsVector heap base (xs ++ [v])) :
    HoldsVector (heap.insert base xs.length) base xs where
  length := by simp
  element := by
    intro i w found
    have inside := (List.getElem?_eq_some_iff.1 found).1
    rw [heap_getElem?_insert, if_neg (by omega)]
    apply held.element
    rw [List.getElem?_append_left inside]
    exact found
  bound := by
    have bound := held.bound
    rw [List.length_append, List.length_singleton] at bound
    omega

/-- Only the cells of a vector matter for the list to be held. -/
theorem congr {heap' : Machine.Heap} (held : HoldsVector heap base xs)
    (same : ∀ k, base ≤ k → k ≤ base + xs.length → heap'[k]? = heap[k]?) : HoldsVector heap' base xs where
  length := (same base (Nat.le_refl _) (Nat.le_add_right _ _)).trans held.length
  element := by
    intro i v found
    have inside := (List.getElem?_eq_some_iff.1 found).1
    exact (same (base + i + 1) (by omega) (by omega)).trans (held.element found)
  bound := held.bound

theorem checked (held : HoldsVector heap base xs) : Machine.checkedAddress base = .ok base :=
  checkedAddress_of_room held.bound

theorem checked_element (held : HoldsVector heap base xs) {i : Nat} (inside : i < xs.length) :
    Machine.checkedAddress (base + i + 1) = .ok (base + i + 1) := by
  apply checkedAddress_of_eq (by omega)
  have bound := held.bound
  omega

/-- The last element of a list that is not empty. -/
theorem last {v : Int} (held : HoldsVector heap base (xs ++ [v])) :
    heap[base]? = some (xs.length + 1 : Int) ∧ heap[base + xs.length + 1]? = some v ∧
      Machine.checkedAddress (base + xs.length + 1) = .ok (base + xs.length + 1) := by
  refine ⟨?_, held.element (by simp), held.checked_element (by simp)⟩
  have length := held.length
  simpa using length

/-! ### The bodies of the routines -/

section

variable {c : Configuration} {v : Int} {i : Nat}

open Assembly (pushOf)

theorem workAll_new (c : Configuration) (room : base ≤ Machine.maxAddress) :
    (c.pushAll [(base : Int)]).workAll [.stack .duplicate, pushOf 0, .heap .store] =
      some ((c.write base 0).pushAll [(base : Int)]) := by
  simp [Configuration.work_store _ (checkedAddress_of_eq rfl room)]

theorem workAll_length (held : HoldsVector c.heap base xs) :
    (c.pushAll [(base : Int)]).workAll [.heap .retrieve] = some (c.pushAll [(xs.length : Int)]) := by
  simp [Configuration.work_retrieve _ held.checked, held.length]

/-- The code of a push writes the value behind the others and counts the length up. -/
theorem workAll_push (held : HoldsVector c.heap base xs) (room : base + (xs.length + 1) ≤ Machine.maxAddress) :
    (c.pushAll [base, v]).workAll [.stack (.copy 1), .heap .retrieve, .stack (.copy 2), .arithmetic .add,
        pushOf 1, .arithmetic .add, .stack .swap, .heap .store, .stack .duplicate, .heap .retrieve, pushOf 1,
        .arithmetic .add, .heap .store] =
      some ((c.write (base + xs.length + 1) v).write base (xs.length + 1)) := by
  have checked : Machine.checkedAddress (xs.length + base + 1) = .ok (base + xs.length + 1) :=
    checkedAddress_of_eq (by omega) room
  have apart : base + xs.length + 1 ≠ base := by omega
  simp [Configuration.work_retrieve _ held.checked, Configuration.work_store _ held.checked,
    Configuration.work_store _ checked, held.length, apart]

theorem workAll_get (held : HoldsVector c.heap base xs) (found : xs[i]? = some v) :
    (c.pushAll [base, (i : Int)]).workAll [.arithmetic .add, pushOf 1, .arithmetic .add, .heap .retrieve] =
      some (c.pushAll [v]) := by
  have checked := held.checked_element (List.getElem?_eq_some_iff.1 found).1
  simp [Configuration.work_retrieve _ checked, held.element found]

theorem workAll_set (held : HoldsVector c.heap base xs) (inside : i < xs.length) :
    (c.pushAll [base, (i : Int), v]).workAll [.stack (.copy 2), .stack (.copy 2), .arithmetic .add, pushOf 1,
        .arithmetic .add, .stack .swap, .heap .store, .stack .discard, .stack .discard] =
      some (c.write (base + i + 1) v) := by
  simp [Configuration.work_store _ (held.checked_element inside)]

/-- The code of a pop counts the length down and answers the last value. -/
theorem workAll_pop (held : HoldsVector c.heap base (xs ++ [v])) :
    (c.pushAll [(base : Int)]).workAll [.stack .duplicate, .heap .retrieve, pushOf 1, .arithmetic .subtract,
        .stack (.copy 1), .stack (.copy 1), .heap .store, .arithmetic .add, pushOf 1, .arithmetic .add,
        .heap .retrieve] =
      some ((c.write base xs.length).pushAll [v]) := by
  obtain ⟨length, last, checked⟩ := held.last
  have apart : base ≠ base + xs.length + 1 := by omega
  simp [Configuration.work_retrieve _ held.checked, Configuration.work_store _ held.checked,
    Configuration.work_retrieve _ checked, length, last, apart]

theorem workAll_peek (held : HoldsVector c.heap base (xs ++ [v])) :
    (c.pushAll [(base : Int)]).workAll [.stack .duplicate, .heap .retrieve, .arithmetic .add, .heap .retrieve] =
      some (c.pushAll [v]) := by
  obtain ⟨length, last, checked⟩ := held.last
  rw [Int.add_assoc] at checked
  simp [Configuration.work_retrieve _ held.checked, Configuration.work_retrieve _ checked, length, last]

end

end HoldsVector

namespace Assembly

namespace VectorCall

variable {base : Nat} {before : Option (List Int)} {call : VectorCall} {results after : List Int}
  {heap : Machine.Heap}

/-- After a call the heap holds the list that the call makes. -/
theorem Does.holdsVector (does : call.Does base before results after)
    (held : ∀ xs ∈ before, HoldsVector heap base xs) :
    HoldsVector (call.heapAfter base heap (lengthOf before)) base after := by
  cases does with
  | new room | containerNew room => exact .empty heap room
  | push room | containerPush room => exact (held _ rfl).append _ room
  | set inside => exact (held _ rfl).set _ _
  | pop =>
      have shorter := (held _ rfl).dropLast
      simpa [heapAfter, lengthOf] using shorter
  | length | size | get found | peek => exact held _ rfl

/-- A call leaves the cells alone that are not of the vector. -/
theorem Does.getElem?_heapAfter (does : call.Does base before results after) {k : Nat}
    (outside : k < base ∨ base + max (lengthOf before) after.length < k) :
    (call.heapAfter base heap (lengthOf before))[k]? = heap[k]? := by
  cases does with
  | new | containerNew | pop =>
      rw [heapAfter, heap_getElem?_insert, if_neg (by omega)]
  | push | containerPush =>
      rw [lengthOf, List.length_append, List.length_singleton, Option.getD_some] at outside
      rw [heapAfter, lengthOf, Option.getD_some, heap_getElem?_insert, if_neg (by omega), heap_getElem?_insert,
        if_neg (by omega)]
  | set inside =>
      rw [lengthOf, Option.getD_some] at outside
      rw [heapAfter, heap_getElem?_insert, if_neg (by omega)]
  | length | size | get | peek => rfl

/-! ### The routines -/

/-- The routine of the call, and the one that it hands the call on to. -/
def uses : VectorCall → List VectorCall
  | containerNew => [containerNew, new]
  | containerPush v => [containerPush v, push v]
  | call => [call]

/-- The program holds copies of the code that the call needs. -/
def Equipped (program : Program) (address : Reference → Label) (options : Options) (call : VectorCall) : Prop :=
  ∀ used ∈ call.uses, ∃ place, CopyAt program address place (used.routine options)

variable {program : Program} {address : Reference → Label} {options : Options} {place : Nat} {c : Configuration}

/-- A routine that does not hand its call on does to the heap and the stack what the call does. -/
theorem Does.subroutine (does : call.Does base before results after)
    (held : ∀ xs ∈ before, HoldsVector c.heap base xs) (alone : call.uses = [call])
    (copy : CopyAt program address place (call.routine options)) :
    Subroutine program (place + 1) (c.pushAll (call.arguments base))
      ({ c with heap := call.heapAfter base c.heap (lengthOf before) }.pushAll results) := by
  rw [routine_eq] at copy
  cases does with
  | new room => exact CopyAt.subroutine_straight _ copy (HoldsVector.workAll_new c room)
  | length | size => exact CopyAt.subroutine_straight _ copy (held _ rfl).workAll_length
  | push room => exact CopyAt.subroutine_straight _ copy ((held _ rfl).workAll_push room)
  | get found => exact CopyAt.subroutine_straight _ copy ((held _ rfl).workAll_get found)
  | set inside => exact CopyAt.subroutine_straight _ copy ((held _ rfl).workAll_set inside)
  | @pop _ v =>
      have shorter : (lengthOf (some (after ++ [v])) : Int) - 1 = after.length := by simp [lengthOf]
      rw [heapAfter, shorter]
      exact CopyAt.subroutine_straight _ copy (held _ rfl).workAll_pop
  | peek => exact CopyAt.subroutine_straight _ copy (held _ rfl).workAll_peek
  | containerNew | containerPush => cases alone

omit place c in
theorem target_of_copyAt {place : Nat} (copy : CopyAt program address place (call.routine options)) :
    program.target? (address (.named call.name)) = some (place + 1) := by
  apply copy.marked (d := 0)
  rw [routine_eq]
  rfl

/-- Every routine does to the heap and the stack what the call does. -/
theorem Does.exists_subroutine (does : call.Does base before results after)
    (held : ∀ xs ∈ before, HoldsVector c.heap base xs) (equipped : call.Equipped program address options) :
    ∃ place, program.target? (address (.named call.name)) = some place ∧
      Subroutine program place (c.pushAll (call.arguments base))
        ({ c with heap := call.heapAfter base c.heap (lengthOf before) }.pushAll results) := by
  obtain ⟨place, copy⟩ := equipped call (by cases call <;> simp [uses])
  refine ⟨place + 1, target_of_copyAt copy, ?_⟩
  cases call with
  -- the routine of the vector does within the call what the one of the container is asked for
  | containerNew =>
      obtain ⟨place', copy'⟩ := equipped .new (by simp [uses])
      have target : program.target? (address (.named "vector_new")) = some (place' + 1) := target_of_copyAt copy'
      rw [routine_eq] at copy
      refine CopyAt.subroutine_call copy target fun back => ?_
      rw [Configuration.called_pushAll, Configuration.called_pushAll]
      cases does with
      | containerNew room =>
          have vector : VectorCall.new.Does base before [(base : Int)] [] := .new room
          exact vector.subroutine held rfl copy'
  | containerPush v =>
      obtain ⟨place', copy'⟩ := equipped (.push v) (by simp [uses])
      have target : program.target? (address (.named "vector_push")) = some (place' + 1) := target_of_copyAt copy'
      rw [routine_eq] at copy
      refine CopyAt.subroutine_call copy target fun back => ?_
      rw [Configuration.called_pushAll, Configuration.called_pushAll]
      cases does with
      | @containerPush xs _ room =>
          have vector : (VectorCall.push v).Does base (some xs) [] (xs ++ [v]) := .push room
          exact vector.subroutine held rfl copy'
  | _ => exact does.subroutine held rfl copy

/-- A machine that makes a call gets back. -/
theorem Does.returns {m : Machine} {rest : Machine.Stack} (does : call.Does base before results after)
    (held : ∀ xs ∈ before, HoldsVector m.state.heap base xs) (equipped : call.Equipped program address options)
    (calling : m.Calling program (address (.named call.name)) (call.arguments base) rest) :
    m.Returns program { m.configuration with
      stack := results.foldl Machine.Stack.push rest
      heap := call.heapAfter base m.state.heap (lengthOf before) } := by
  obtain ⟨place, target, routine⟩ := does.exists_subroutine (c := { m.configuration with stack := rest }) held
    equipped
  have returned := Subroutine.returns calling target routine
  rwa [Configuration.pushAll_eq] at returned

end VectorCall

/-! ### Sequences of calls -/

/-- Calls on a vector, made one after another by a program that leaves the cells of the vector alone in between,
    keep a list there: each call comes back with what the list gives, all else on the stack and all of the
    configuration apart from the heap being as it was; the heap holds the list that the call makes, and differs
    in no cell that is not of the vector. The list before the first call need not be known. -/
def KeepsVector (program : Program) (address : Reference → Label) (base : Nat) :
    List VectorCall → Option (List Int) → Machine → Prop
  | [], _, _ => True
  | call :: more, before, m =>
    ∀ (rest : Machine.Stack) (results after : List Int), call.Does base before results after →
      m.Calling program (address (.named call.name)) (call.arguments base) rest →
      ∃ heap, m.Returns program { m.configuration with stack := results.foldl Machine.Stack.push rest, heap } ∧
        HoldsVector heap base after ∧
        (∀ k, k < base ∨ base + max (VectorCall.lengthOf before) after.length < k →
          heap[k]? = m.state.heap[k]?) ∧
        ∀ m' : Machine, (∀ k, base ≤ k → k ≤ base + after.length → m'.state.heap[k]? = heap[k]?) →
          KeepsVector program address base more (some after) m'

/-- Vectors and containers in memory behave like lists, whatever sequence of calls is made on them. -/
theorem vectors_are_lists {program : Program} {address : Reference → Label} {options : Options} {base : Nat}
    (calls : List VectorCall) (equipped : ∀ call ∈ calls, call.Equipped program address options)
    (before : Option (List Int)) (m : Machine) (held : ∀ xs ∈ before, HoldsVector m.state.heap base xs) :
    KeepsVector program address base calls before m := by
  induction calls generalizing before m with
  | nil => trivial
  | cons call more ih =>
      rw [List.forall_mem_cons] at equipped
      intro rest results after does calling
      have holds := does.holdsVector held
      refine ⟨_, does.returns held equipped.1 calling, holds, fun k => does.getElem?_heapAfter, ?_⟩
      intro m' same
      apply ih equipped.2
      intro xs known
      cases known
      exact holds.congr same

/-- A container is made at an address, and a value pushed to it as to a vector. -/
theorem vectors_are_lists_push :
    let calls : List VectorCall := [.containerNew, .push 7]
    let main : List Statement := [.push 100, .call "memcontainer_new", .push 7, .call "vector_push"]
    let p : LineProgram := (main ++ (VectorCall.new.statements ++ ((VectorCall.push 0).statements ++
      VectorCall.containerNew.statements))).map some
    let program := Program.ofInstructions p.code
    let m : Machine := { state := { stack := Machine.Stack.empty.push 100, pc := 1 }, input := ⟨.ofText "", []⟩ }
    let m' (heap : Machine.Heap) : Machine :=
      { state := { stack := (Machine.Stack.empty.push 100).push 7, heap, pc := 3 }, input := ⟨.ofText "", []⟩ }
    (∀ call ∈ calls, call.Equipped program (p.address 0) {}) ∧
      (∀ xs ∈ (none : Option (List Int)), HoldsVector m.state.heap 100 xs) ∧
      KeepsVector program (p.address 0) 100 calls none m ∧
      ∃ heap, m.Returns program { m.configuration with stack := Machine.Stack.empty.push 100, heap } ∧
        HoldsVector heap 100 [] ∧
        ∃ heap', (m' heap).Returns program { (m' heap).configuration with stack := .empty, heap := heap' } ∧
          HoldsVector heap' 100 [7] := by
  intro calls main p program m m'
  have new : CopyAt program (p.address 0) (p.place 4) (VectorCall.new.routine {}) := by
    rw [VectorCall.routine_eq]
    exact copyAt_statements rfl (by decide +kernel) (by decide +kernel) (by decide +kernel)
  have push : CopyAt program (p.address 0) (p.place 9) ((VectorCall.push 7).routine {}) := by
    rw [VectorCall.routine_eq]
    exact @copyAt_statements p (main ++ VectorCall.new.statements) (VectorCall.push 7).statements
      VectorCall.containerNew.statements rfl (by decide +kernel) (by decide +kernel) (by decide +kernel)
  have containerNew : CopyAt program (p.address 0) (p.place 22) (VectorCall.containerNew.routine {}) := by
    rw [VectorCall.routine_eq]
    exact @copyAt_statements p (main ++ (VectorCall.new.statements ++ (VectorCall.push 0).statements))
      VectorCall.containerNew.statements [] rfl (by decide +kernel) (by decide +kernel) (by decide +kernel)
  have equipped : ∀ call ∈ calls, call.Equipped program (p.address 0) {} := by
    simp only [calls, List.forall_mem_cons, VectorCall.Equipped, VectorCall.uses]
    exact ⟨⟨⟨_, containerNew⟩, ⟨_, new⟩, List.forall_mem_nil _⟩, ⟨⟨_, push⟩, List.forall_mem_nil _⟩,
      List.forall_mem_nil _⟩
  have held : ∀ xs ∈ (none : Option (List Int)), HoldsVector m.state.heap 100 xs := nofun
  have here : program.instruction? 3 = some (.flow (.call (p.address 0 (.named "vector_push")))) := by
    decide +kernel
  have keeps := vectors_are_lists calls equipped none m held
  refine ⟨equipped, held, keeps, ?_⟩
  obtain ⟨heap, returned, holds, -, onward⟩ :=
    keeps .empty [100] [] (.containerNew (by decide)) ⟨rfl, by decide +kernel, rfl⟩
  obtain ⟨heap', returned', holds', -, -⟩ := onward (m' heap) (fun _ _ _ => rfl) .empty [] [7]
    (.push (by decide)) ⟨rfl, here, rfl⟩
  exact ⟨heap, returned, holds, heap', returned', holds'⟩

end Assembly

end Whitespace

/-
Module: Whitespace.Proofs.StraightCode
Purpose: Code without flow commands, carried out as a whole. What such an instruction does to the stack, the
  heap and the ports is a function of these alone, with an equation for each instruction, so that a piece of
  straight code is evaluated by rewriting; wherever a program holds the piece, its machine comes to what the
  evaluation gives.
Main exports: Configuration.work, Configuration.workAll, Configuration.drop, Configuration.write,
  Configuration.put, Configuration.called, Configuration.runningAt, Configuration.reaches_of_workAll
-/
import Whitespace.Proofs.Obedience

namespace Whitespace

namespace Machine

theorem heap_getElem?_insert (heap : Heap) (address other : Nat) (v : Int) :
    (heap.insert address v)[other]? = if address = other then some v else heap[other]? := by
  simp [Std.TreeMap.getElem?_insert]

theorem checkedAddress_of_eq {place : Int} {address : Nat} (same : place = address)
    (bound : address ≤ maxAddress) : checkedAddress place = .ok address := by
  subst same
  rw [checkedAddress, if_neg (by omega), Int.toNat_natCast, if_pos bound]

theorem checkedAddress_of_room {address length : Nat} (room : address + length ≤ maxAddress) :
    checkedAddress address = .ok address :=
  checkedAddress_of_eq rfl (Nat.le_of_add_right_le room)

end Machine

namespace Configuration

variable {program : Program} {c d : Configuration} {i : Instruction}

/-! ### Parts of a configuration -/

@[simp] theorem push_stack (c : Configuration) (a : Int) : (c.push a).stack = c.stack.push a := rfl

@[simp] theorem push_heap (c : Configuration) (a : Int) : (c.push a).heap = c.heap := rfl

def drop (c : Configuration) (n : Nat) : Configuration := { c with stack := c.stack.drop n }

@[simp] theorem drop_zero (c : Configuration) : c.drop 0 = c := rfl

@[simp] theorem drop_push_succ (c : Configuration) (a : Int) (n : Nat) :
    (c.push a).drop (n + 1) = c.drop n := by
  rw [drop, push_stack, Machine.Stack.drop_push_succ]
  rfl

def write (c : Configuration) (address : Nat) (v : Int) : Configuration :=
  { c with heap := c.heap.insert address v }

@[simp] theorem write_push (c : Configuration) (address : Nat) (a v : Int) :
    (c.push a).write address v = (c.write address v).push a := rfl

@[simp] theorem write_getElem? (c : Configuration) (address other : Nat) (v : Int) :
    (c.write address v).heap[other]? = if address = other then some v else c.heap[other]? :=
  Machine.heap_getElem?_insert c.heap address other v

def put (c : Configuration) (x : Char) : Configuration := { c with output := c.output.writeCharacter x }

@[simp] theorem put_push (c : Configuration) (a : Int) (x : Char) : (c.push a).put x = (c.put x).push a := rfl

def receive (c : Configuration) (input : Input.Port) : Configuration := { c with input }

@[simp] theorem receive_push (c : Configuration) (a : Int) (input : Input.Port) :
    (c.push a).receive input = (c.receive input).push a := rfl

/-- A routine was called that goes back to a place. -/
def called (c : Configuration) (back : Nat) : Configuration := { c with calls := back :: c.calls }

/-- Control is at a place, and the machine has not halted. -/
def runningAt (c : Configuration) (place : Nat) : Configuration := { c with place, halted := false }

/-! ### Single instructions -/

/-- What an instruction that does not direct control does, the place left as it is. -/
def work (c : Configuration) (i : Instruction) : Option Configuration :=
  if i.isFlow then none else (c.obey (Program.ofInstructions []) i).map (·.goto c.place)

theorem isFlow_of_work (worked : c.work i = some d) : i.isFlow = false := by
  by_contra flow
  simp [work, flow] at worked

/-- The same is done to every configuration with that stack, that heap and those ports. -/
theorem exists_parts_of_work (worked : c.work i = some d) : ∃ stack heap input output,
    d = { c with stack, heap, input, output } ∧ ∀ (program : Program) (e : Configuration), e.stack = c.stack →
      e.heap = c.heap → e.input = c.input → e.output = c.output →
      e.obey program i = some { e with stack, heap, input, output }.next := by
  have straight := isFlow_of_work worked
  obtain ⟨change, spec⟩ := exists_change straight c
  simp only [work, straight, Bool.false_eq_true, if_false, spec _ c rfl rfl rfl rfl] at worked
  cases change with
  | made stack heap input output =>
      cases worked
      exact ⟨stack, heap, input, output, rfl, spec⟩
  | refused f input => cases worked
  | stalled input => cases worked

/-- It is done wherever the instruction stands. -/
theorem obey_of_work (worked : c.work i = some d) (program : Program) (place : Nat) :
    (c.runningAt place).obey program i = some (d.runningAt (place + 1)) := by
  obtain ⟨stack, heap, input, output, rfl, spec⟩ := exists_parts_of_work worked
  exact spec program (c.runningAt place) rfl rfl rfl rfl

theorem work_of_obey (straight : i.isFlow = false)
    (obeyed : c.obey (Program.ofInstructions []) i = some d.next) (here : d.place = c.place) :
    c.work i = some d := by
  simp only [work, straight, Bool.false_eq_true, if_false, obeyed, Option.map_some, ← here]
  rfl

section

variable (c : Configuration) (a b n : Int)

@[simp] theorem work_push : c.work (.stack (.push n)) = some (c.push n) :=
  work_of_obey rfl (obey_pushOf _ c n) rfl

@[simp] theorem work_pushOf : c.work (Assembly.pushOf n) = some (c.push n) := work_push c n

@[simp] theorem work_duplicate : (c.push a).work (.stack .duplicate) = some ((c.push a).push a) :=
  work_of_obey rfl (obey_duplicate _ c a) rfl

@[simp] theorem work_copy : c.work (.stack (.copy n)) =
    if n < 0 then none else (c.stack.get? n.toNat).map c.push := by
  by_cases negative : n < 0
  · simp [work, Instruction.isFlow, obey, machine, Machine.perform_stack, Machine.runStack, negative, Except.map,
      Machine.allOrNothing]
  · cases found : c.stack.get? n.toNat <;>
      simp [work, Instruction.isFlow, obey, machine, Machine.perform_stack, Machine.runStack, negative, Except.map,
        Machine.allOrNothing, found]
    rfl

@[simp] theorem work_swap : ((c.push a).push b).work (.stack .swap) = some ((c.push b).push a) :=
  work_of_obey rfl (obey_swap _ c a b) rfl

@[simp] theorem work_discard : (c.push a).work (.stack .discard) = some c :=
  work_of_obey rfl (obey_discard _ c a) rfl

@[simp] theorem work_slide : (c.push a).work (.stack (.slide n)) =
    if n < 0 ∨ c.stack.size < n.toNat then none else some ((c.drop n.toNat).push a) := by
  by_cases negative : n < 0
  · simp [work, Instruction.isFlow, obey, machine, Machine.perform_stack, Machine.runStack, negative, Except.map,
      Machine.allOrNothing]
  · by_cases short : c.stack.size < n.toNat
    · simp [work, Instruction.isFlow, obey, machine, Machine.perform_stack, Machine.runStack, negative, Except.map,
        Machine.allOrNothing, short, Nat.not_le.2 short]
    · simp [work, Instruction.isFlow, obey, machine, Machine.perform_stack, Machine.runStack, negative, Except.map,
        Machine.allOrNothing, short, Nat.le_of_not_lt short]
      rfl

@[simp] theorem work_add : ((c.push a).push b).work (.arithmetic .add) = some (c.push (a + b)) :=
  work_of_obey rfl (obey_arithmetic _ c .add nofun rfl) rfl

@[simp] theorem work_subtract : ((c.push a).push b).work (.arithmetic .subtract) = some (c.push (a - b)) :=
  work_of_obey rfl (obey_arithmetic _ c .subtract nofun rfl) rfl

@[simp] theorem work_multiply : ((c.push a).push b).work (.arithmetic .multiply) = some (c.push (a * b)) :=
  work_of_obey rfl (obey_arithmetic _ c .multiply nofun rfl) rfl

@[simp] theorem work_and : ((c.push a).push b).work (.arithmetic .and) = some (c.push (bitAnd a b)) :=
  work_of_obey rfl (obey_arithmetic _ c .and nofun rfl) rfl

@[simp] theorem work_or : ((c.push a).push b).work (.arithmetic .or) = some (c.push (bitOr a b)) :=
  work_of_obey rfl (obey_arithmetic _ c .or nofun rfl) rfl

@[simp] theorem work_complement : (c.push b).work (.arithmetic .complement) = some (c.push (bitComplement b)) := by
  refine work_of_obey rfl ?_ rfl
  simp [obey, machine, push, Machine.perform_arithmetic, Machine.runArithmetic, Machine.allOrNothing, Except.map]
  rfl

variable {b} in
@[simp] theorem work_divide (nonzero : b ≠ 0) :
    ((c.push a).push b).work (.arithmetic .divide) = some (c.push (a.fdiv b)) :=
  work_of_obey rfl (obey_arithmetic _ c .divide nofun (if_neg nonzero)) rfl

variable {b} in
@[simp] theorem work_modulo (nonzero : b ≠ 0) :
    ((c.push a).push b).work (.arithmetic .modulo) = some (c.push (a.fmod b)) :=
  work_of_obey rfl (obey_arithmetic _ c .modulo nofun (if_neg nonzero)) rfl

variable {address : Nat} {place v : Int} (checked : Machine.checkedAddress place = .ok address)

include checked

theorem work_store : ((c.push place).push v).work (.heap .store) = some (c.write address v) :=
  work_of_obey rfl (obey_store _ c checked) rfl

theorem work_retrieve : (c.push place).work (.heap .retrieve) = (c.heap[address]?).map c.push := by
  cases cell : c.heap[address]? with
  | some v => exact work_of_obey rfl (obey_retrieve _ c checked cell) rfl
  | none =>
      simp [work, Instruction.isFlow, obey, machine, push, Machine.perform_heap, Machine.runHeap, checked, cell,
        Except.map, Machine.allOrNothing]

theorem work_readCharacter {x : Char} {port : Input.Port} (read : c.input.readCharacter = (.value x, port)) :
    (c.push place).work (.io .readCharacter) = some ((c.receive port).write address x.toNat) := by
  refine work_of_obey rfl ?_ rfl
  simp [obey, machine, push, Machine.perform_io, Machine.transfer, checked, read, Machine.codePoint,
    Machine.receive]
  rfl

omit checked

theorem work_writeCharacter {x : Char} (character : Machine.character? a = some x) :
    (c.push a).work (.io .writeCharacter) = some (c.put x) := by
  refine work_of_obey rfl ?_ rfl
  simp [obey, machine, push, Machine.perform_io, Machine.transfer, character]
  rfl

end

/-! ### Straight code -/

/-- What instructions that do not direct control do one after another. -/
def workAll (c : Configuration) : List Instruction → Option Configuration
  | [] => some c
  | i :: rest => (c.work i).bind fun d => d.workAll rest

@[simp] theorem workAll_nil (c : Configuration) : c.workAll [] = some c := rfl

@[simp] theorem workAll_cons (c : Configuration) (i : Instruction) (rest : List Instruction) :
    c.workAll (i :: rest) = (c.work i).bind fun d => d.workAll rest := rfl

/-- What straight code does it does in a call. -/
theorem workAll_called {code : List Instruction} (worked : c.workAll code = some d) (back : Nat) :
    (c.called back).workAll code = some (d.called back) := by
  induction code generalizing c with
  | nil =>
      cases worked
      rfl
  | cons i rest ih =>
      obtain ⟨e, first, others⟩ := Option.bind_eq_some_iff.1 worked
      have straight := isFlow_of_work first
      obtain ⟨stack, heap, input, output, rfl, spec⟩ := exists_parts_of_work first
      have there := work_of_obey straight (spec _ (c.called back) rfl rfl rfl rfl) rfl
      rw [workAll_cons, there]
      exact ih others

/-- Straight code takes the machine to its end. -/
theorem reaches_of_workAll {code : List Instruction} {place : Nat} (here : CodeAt program place code)
    (worked : c.workAll code = some d) :
    Reaches program (c.runningAt place) (d.runningAt (place + code.length)) := by
  induction code generalizing c place with
  | nil =>
      cases worked
      exact .refl
  | cons i rest ih =>
      obtain ⟨e, first, others⟩ := Option.bind_eq_some_iff.1 worked
      have onward := ih here.tail others
      rw [Nat.add_assoc, Nat.add_comm 1] at onward
      exact Reaches.obey here rfl (obey_of_work first program place) onward

end Configuration

end Whitespace

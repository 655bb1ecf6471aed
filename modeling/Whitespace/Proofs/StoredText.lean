/-
Module: Whitespace.Proofs.StoredText
Purpose: Texts survive in memory. A text is stored by a statement of its own or read from the input as a line;
  either way its characters lie in the cells from an address on, with a zero behind them, and the routine that
  prints the text at the address prints it as it was.
Main exports: Output.text_writeText, Port.Yields, Port.exists_yields, HoldsText, StoresText,
  exists_workAll_store, subroutine_print, exists_subroutine_readLine, PrintsText, texts_survive
-/
import Whitespace.Proofs.PlainReading
import Whitespace.Proofs.Routines

namespace Whitespace

open Whitespace.Configuration (Reaches)
open Machine (heap_getElem?_insert checkedAddress_of_room)

/-! ### Characters -/

namespace Output

def writeText (o : Output) (s : List Char) : Output := s.foldl writeCharacter o

/-- What is written stands behind what was written before. -/
theorem text_writeText (o : Output) (s : List Char) : (o.writeText s).text = o.text ++ String.ofList s := by
  induction s generalizing o with
  | nil => simp [writeText]
  | cons x rest ih =>
      have first : (o.writeCharacter x).text = o.text ++ String.singleton x := by
        simp [text, pieces, writeCharacter, write, String.join_append]
      calc
        (o.writeText (x :: rest)).text = (o.writeCharacter x).text ++ String.ofList rest := ih _
        _ = o.text ++ String.ofList (x :: rest) := by
          rw [first, String.append_assoc]
          simp

end Output

theorem Machine.character?_toNat (x : Char) : character? x.toNat = some x := by
  have valid : (0 : Int) ≤ x.toNat ∧ (x.toNat : Int).toNat.isValidChar := ⟨Int.natCast_nonneg _, x.valid⟩
  rw [character?, dif_pos valid]
  rfl

theorem Machine.natCast_toNat_ne {x y : Char} (different : y ≠ x) : (x.toNat : Int) ≠ y.toNat := by
  intro same
  exact different (Char.toNat_inj.1 (Int.ofNat_inj.1 same.symm))

/-! ### Input that is there -/

namespace Input.Port

/-- The characters that reads take from a port one after another, and the port that they leave. -/
inductive Yields : Port → List Char → Port → Prop where
  | nil (p : Port) : Yields p [] p
  | cons {p p' q : Port} {x : Char} {s : List Char} : p.readCharacter = (.value x, p') → Yields p' s q →
      Yields p (x :: s) q

variable {p q : Port} {s rest : List Char}

/-- A character that is read was the first of those still to come. -/
theorem remaining_of_readCharacter {x : Char} (read : p.readCharacter = (.value x, q)) :
    p.remaining = x :: q.remaining := by
  unfold readCharacter at read
  split at read
  · next kept =>
      cases read
      rw [remaining, kept, List.cons_append]
      rfl
  · cases filled : p.refill with
    | mk r p' =>
        rw [filled] at read
        cases r with
        | waiting | failed => cases read
        | filled =>
            have moved := p.remaining_refill
            rw [filled] at moved
            simp only at read moved
            split at read
            · next kept =>
                cases read
                rw [← moved, remaining, kept, List.cons_append]
                rfl
            · cases read

/-- The text that was to come is the one that was read, and the one that is still to come. -/
theorem Yields.remaining_eq (yields : p.Yields s q) : p.remaining = s ++ q.remaining := by
  induction yields with
  | nil p => rfl
  | cons read _ ih => rw [remaining_of_readCharacter read, ih, List.cons_append]

/-- A port whose source is steady yields the text that is to come. -/
theorem exists_yields {ended : Bool} (steady : p.source.Steady ended) (remaining : p.remaining = s ++ rest) :
    ∃ q, p.Yields s q ∧ q.remaining = rest := by
  induction s generalizing p with
  | nil => exact ⟨p, .nil p, remaining⟩
  | cons x s ih =>
      have reading := reading_readCharacter steady
      rw [remaining, List.cons_append, frontCharacter] at reading
      generalize read : p.readCharacter = outcome at reading
      cases reading with
      | value steady' remaining' =>
          obtain ⟨q, yields, left⟩ := ih steady' remaining'
          exact ⟨q, .cons read yields, left⟩

end Input.Port

/-! ### Texts in memory -/

/-- The cells from an address on hold the characters of a text and a zero. -/
def HoldsText (heap : Machine.Heap) : Nat → List Char → Prop
  | base, [] => heap[base]? = some 0
  | base, x :: s => heap[base]? = some (x.toNat : Int) ∧ HoldsText heap (base + 1) s

/-- Only the cells of a text matter for the text to be held. -/
theorem HoldsText.congr {heap heap' : Machine.Heap} {base : Nat} {s : List Char} (held : HoldsText heap base s)
    (same : ∀ k, base ≤ k → k ≤ base + s.length → heap'[k]? = heap[k]?) : HoldsText heap' base s := by
  induction s generalizing base with
  | nil => exact (same base (Nat.le_refl _) (Nat.le_refl _)).trans held
  | cons x s ih =>
      refine ⟨(same base (Nat.le_refl _) (Nat.le_add_right _ _)).trans held.1, ih held.2 fun k low high => ?_⟩
      apply same k (Nat.le_of_succ_le low)
      rw [List.length_cons]
      omega

/-- A heap becomes one that holds a text at an address; the other cells are as they were. -/
structure StoresText (before : Machine.Heap) (base : Nat) (s : List Char) (after : Machine.Heap) : Prop where
  holds : HoldsText after base s
  kept {k : Nat} : k < base ∨ base + s.length < k → after[k]? = before[k]?

namespace StoresText

variable {heap after : Machine.Heap} {base : Nat} {s : List Char}

/-- The zero may replace what was written into its cell just before. -/
theorem nil (held : ∀ k, after[k]? = if base = k then some 0 else heap[k]?) : StoresText heap base [] after where
  holds := by
    have zero := held base
    rwa [if_pos rfl] at zero
  kept := by
    intro k outside
    rw [List.length_nil] at outside
    rw [held, if_neg (by omega)]

/-- A text is stored character by character. -/
theorem cons {x : Char} (stores : StoresText (heap.insert base (x.toNat : Int)) (base + 1) s after) :
    StoresText heap base (x :: s) after where
  holds := by
    have first := stores.kept (Or.inl (Nat.lt_succ_self base))
    rw [heap_getElem?_insert, if_pos rfl] at first
    exact ⟨first, stores.holds⟩
  kept := by
    intro k outside
    rw [List.length_cons] at outside
    have same := stores.kept (k := k) (by omega)
    rwa [heap_getElem?_insert, if_neg (by omega)] at same

end StoresText

namespace Assembly

/-! ### The lines of the routines -/

namespace Library

/-- Prints the text at an address. -/
def printStatements : List Statement :=
  [.label "print_str", .label "__io_print_str_loop", .plain (.stack .duplicate), .retrieve none,
    .plain (.stack .duplicate), .jump .zero "__io_print_str_done", .plain (.io .writeCharacter),
    .arithmetic .add (some 1), .jump .always "__io_print_str_loop", .label "__io_print_str_done",
    .plain (.stack .discard), .plain (.stack .discard), .plain (.flow .ret)]

/-- Reads a line to an address. -/
def readLineStatements : List Statement :=
  [.label "read_line", .label "__io_read_line_loop", .plain (.stack .duplicate), .plain (.io .readCharacter),
    .plain (.stack .duplicate), .retrieve none, .plain (.stack .duplicate), .arithmetic .subtract (some 10),
    .jump .zero "__io_read_line_done", .plain (.stack .discard), .arithmetic .add (some 1),
    .jump .always "__io_read_line_loop", .label "__io_read_line_done", .plain (.stack .discard), .push 0,
    .store none, .plain (.flow .ret)]

/-- The routines for numbers, and the one that ends a line of output. -/
def printNumberStatements : List Statement :=
  [.label "println_num", .plain (.io .writeNumber), .label "print_newline", .push 10,
    .plain (.io .writeCharacter), .plain (.flow .ret)]

/-- Reads a number, with a cell to keep it in. -/
def readNumberStatements : List Statement :=
  [.label "read_num", .plain (.stack .duplicate), .plain (.io .readNumber), .retrieve none, .plain (.flow .ret)]

/-- The library for texts, statement by statement. -/
theorem statements_io (options : Options) : statements options "io" =
    ((.jump .always "__io_end" :: (printStatements ++ printNumberStatements ++ readLineStatements ++
      readNumberStatements ++ [.label "__io_end"]) : List Statement)).map some := by
  obtain ⟨_ | _⟩ := options
  all_goals
    apply statements_of_toList rfl
    · repeat apply map_toList_cons
      exact List.map_nil
    · decide +kernel

theorem routine_print (options : Options) :
    routine options "io" "print_str" "println_num" = printStatements.flatMap Statement.symbolic := by
  rw [routine, statements_io]
  rfl

theorem routine_readLine (options : Options) :
    routine options "io" "read_line" "read_num" = readLineStatements.flatMap Statement.symbolic := by
  rw [routine, statements_io]
  rfl

end Library

/-! ### The statement that stores a text -/

theorem workAll_emitCharacter {c : Configuration} {base : Nat} (checked : Machine.checkedAddress base = .ok base)
    (x : Char) (more : List Instruction) :
    (c.push base).workAll (emitCharacter x ++ more) =
      ((c.write base x.toNat).push ((base + 1 : Nat) : Int)).workAll more := by
  simp [emitCharacter, Configuration.work_store _ checked]

/-- Characters are stored one after another, each by the code of its own. -/
theorem exists_workAll_store {c : Configuration} {base : Nat} {s : List Char}
    (room : base + s.length ≤ Machine.maxAddress) :
    ∃ heap, StoresText c.heap base s heap ∧
      (c.push base).workAll ((s ++ ['\x00']).flatMap emitCharacter ++ [.stack .discard]) =
        some { c with heap } := by
  induction s generalizing base c with
  | nil =>
      have checked := checkedAddress_of_room room
      refine ⟨c.heap.insert base 0, .nil fun k => heap_getElem?_insert c.heap base k 0, ?_⟩
      rw [List.nil_append, List.flatMap_singleton, workAll_emitCharacter checked]
      simp [Configuration.write]
  | cons x s ih =>
      have checked := checkedAddress_of_room room
      rw [List.length_cons] at room
      obtain ⟨heap, stores, worked⟩ := @ih (c.write base x.toNat) (base + 1) (by omega)
      refine ⟨heap, stores.cons, ?_⟩
      rw [List.cons_append, List.flatMap_cons, List.append_assoc, workAll_emitCharacter checked]
      exact worked

/-! ### The routines -/

section

variable {program : Program} {address : Reference → Label} {place base : Nat} {s : List Char}
  {c : Configuration}

theorem workAll_fetch {v : Int} (checked : Machine.checkedAddress base = .ok base)
    (cell : c.heap[base]? = some v) :
    (c.push base).workAll [.stack .duplicate, .heap .retrieve, .stack .duplicate] =
      some (((c.push base).push v).push v) := by
  simp [Configuration.work_retrieve _ checked, cell]

theorem workAll_put (x : Char) :
    ((c.push base).push x.toNat).workAll [.io .writeCharacter, pushOf 1, .arithmetic .add] =
      some ((c.put x).push ((base + 1 : Nat) : Int)) := by
  simp [Configuration.work_writeCharacter _ _ (Machine.character?_toNat x)]

/-- The loop that prints goes on to the zero behind the text. -/
theorem reaches_print (copy : CopyAt program address place (Library.printStatements.flatMap Statement.symbolic))
    (held : HoldsText c.heap base s) (visible : '\x00' ∉ s) (room : base + s.length ≤ Machine.maxAddress) :
    Reaches program ((c.push base).runningAt (place + 2))
      ({ c with output := c.output.writeText s }.runningAt (place + 13)) := by
  induction s generalizing base c with
  | nil =>
      have checked := checkedAddress_of_room room
      calc
        Reaches program _ ((((c.push base).push 0).push 0).runningAt (place + 5)) :=
          copy.straight 2 _ rfl rfl (workAll_fetch checked held)
        Reaches program _ (((c.push base).push 0).runningAt (place + 11)) := copy.jumpZero 5 10 rfl rfl
        Reaches program _ (c.runningAt (place + 13)) :=
          copy.straight 11 [.stack .discard, .stack .discard] rfl rfl (by simp)
  | cons x rest ih =>
      have checked := checkedAddress_of_room room
      rw [List.mem_cons, not_or] at visible
      rw [List.length_cons] at room
      have nonzero : (x.toNat : Int) ≠ 0 := Machine.natCast_toNat_ne visible.1
      calc
        Reaches program _ ((((c.push base).push x.toNat).push x.toNat).runningAt (place + 5)) :=
          copy.straight 2 _ rfl rfl (workAll_fetch checked held.1)
        Reaches program _ (((c.push base).push x.toNat).runningAt (place + 6)) :=
          copy.jumpZero_of_ne 5 10 nonzero rfl rfl
        Reaches program _ (((c.put x).push ((base + 1 : Nat) : Int)).runningAt (place + 9)) :=
          copy.straight 6 _ rfl rfl (workAll_put x)
        Reaches program _ (((c.put x).push ((base + 1 : Nat) : Int)).runningAt (place + 2)) :=
          copy.jump 9 1 rfl rfl
        Reaches program _ _ := ih (c := c.put x) held.2 visible.2 (by omega)

/-- The routine prints the text that stands at its argument. -/
theorem subroutine_print
    (copy : CopyAt program address place (Library.printStatements.flatMap Statement.symbolic))
    (held : HoldsText c.heap base s) (visible : '\x00' ∉ s) (room : base + s.length ≤ Machine.maxAddress) :
    Subroutine program (place + 1) (c.push base) { c with output := c.output.writeText s } := by
  intro back
  calc
    Reaches program _ (((c.called back).push base).runningAt (place + 2)) := copy.mark 1 rfl
    Reaches program _ (({ c with output := c.output.writeText s }.called back).runningAt (place + 13)) :=
      reaches_print (c := c.called back) copy held visible room
    Reaches program _ _ := copy.leave 13 rfl

theorem workAll_take {x : Char} {port : Input.Port} (checked : Machine.checkedAddress base = .ok base)
    (read : c.input.readCharacter = (.value x, port)) :
    (c.push base).workAll [.stack .duplicate, .io .readCharacter, .stack .duplicate, .heap .retrieve,
        .stack .duplicate, pushOf 10, .arithmetic .subtract] =
      some (((((c.receive port).write base x.toNat).push base).push x.toNat).push (x.toNat - 10)) := by
  have taken := Configuration.work_readCharacter (c.push base) checked read
  simp [taken, Configuration.work_retrieve _ checked]

/-- The loop that reads goes on to the end of the line and puts a zero in its place. The heap that is left does
    not depend on where the routine was called. -/
theorem exists_reaches_readLine {port : Input.Port}
    (copy : CopyAt program address place (Library.readLineStatements.flatMap Statement.symbolic))
    (yields : c.input.Yields (s ++ ['\n']) port) (line : '\n' ∉ s)
    (room : base + s.length ≤ Machine.maxAddress) :
    ∃ heap, StoresText c.heap base s heap ∧ ∀ back,
      Reaches program (((c.called back).push base).runningAt (place + 2))
        (({ c with heap, input := port }.called back).runningAt (place + 18)) := by
  induction s generalizing base c with
  | nil =>
      have checked := checkedAddress_of_room room
      cases yields with
      | cons read done =>
          cases done
          -- the line feed is stored before it is known to be one, and the zero takes its cell
          refine ⟨(c.heap.insert base 10).insert base 0, .nil fun k => ?_, fun back => ?_⟩
          · rw [heap_getElem?_insert, heap_getElem?_insert]
            split_ifs <;> rfl
          · let e := ((c.called back).receive port).write base 10
            calc
              Reaches program _ ((((e.push base).push 10).push 0).runningAt (place + 9)) :=
                copy.straight 2 _ rfl rfl (workAll_take (c := c.called back) checked read)
              Reaches program _ (((e.push base).push 10).runningAt (place + 15)) := copy.jumpZero 9 14 rfl rfl
              Reaches program _ ((e.write base 0).runningAt (place + 18)) :=
                copy.straight 15 [.stack .discard, pushOf 0, .heap .store] rfl rfl
                  (by simp [Configuration.work_store _ checked])
  | cons x rest ih =>
      have checked := checkedAddress_of_room room
      rw [List.mem_cons, not_or] at line
      rw [List.length_cons] at room
      have different : (x.toNat : Int) ≠ 10 := Machine.natCast_toNat_ne line.1
      have nonzero : (x.toNat : Int) - 10 ≠ 0 := by omega
      cases yields with
      | @cons _ port' _ _ _ read more =>
          obtain ⟨heap, stores, reaches⟩ := @ih (base + 1) ((c.receive port').write base x.toNat) more line.2
            (by omega)
          refine ⟨heap, stores.cons, fun back => ?_⟩
          let e := ((c.called back).receive port').write base x.toNat
          calc
            Reaches program _ ((((e.push base).push x.toNat).push (x.toNat - 10)).runningAt (place + 9)) :=
              copy.straight 2 _ rfl rfl (workAll_take (c := c.called back) checked read)
            Reaches program _ (((e.push base).push x.toNat).runningAt (place + 10)) :=
              copy.jumpZero_of_ne 9 14 nonzero rfl rfl
            Reaches program _ ((e.push ((base + 1 : Nat) : Int)).runningAt (place + 13)) :=
              copy.straight 10 [.stack .discard, pushOf 1, .arithmetic .add] rfl rfl (by simp)
            Reaches program _ ((e.push ((base + 1 : Nat) : Int)).runningAt (place + 2)) :=
              copy.jump 13 1 rfl rfl
            Reaches program _ _ := reaches back

/-- The routine stores at its argument the line that is read. -/
theorem exists_subroutine_readLine {port : Input.Port}
    (copy : CopyAt program address place (Library.readLineStatements.flatMap Statement.symbolic))
    (yields : c.input.Yields (s ++ ['\n']) port) (line : '\n' ∉ s)
    (room : base + s.length ≤ Machine.maxAddress) :
    ∃ heap, StoresText c.heap base s heap ∧
      Subroutine program (place + 1) (c.push base) { c with heap, input := port } := by
  obtain ⟨heap, stores, reaches⟩ := exists_reaches_readLine copy yields line room
  refine ⟨heap, stores, fun back => ?_⟩
  calc
    Reaches program _ (((c.called back).push base).runningAt (place + 2)) := copy.mark 1 rfl
    Reaches program _ (({ c with heap, input := port }.called back).runningAt (place + 18)) := reaches back
    Reaches program _ _ := copy.leave 18 rfl

end

/-- In a machine that has in the cells of a text at an address what a heap has there, the routine that prints,
    called with the address, writes the text and leaves all else as it was. -/
def PrintsText (program : Program) (address : Reference → Label) (base : Nat) (s : String)
    (heap : Machine.Heap) : Prop :=
  ∀ (m : Machine) (rest : Machine.Stack), (∀ k, base ≤ k → k ≤ base + s.length → m.state.heap[k]? = heap[k]?) →
    m.Calling program (address (.named "print_str")) [(base : Int)] rest →
    ∃ output : Output, output.text = m.output.text ++ s ∧
      m.Returns program { m.configuration with stack := rest, output }

section

variable {program : Program} {address : Reference → Label} {options : Options} {place place' base : Nat}
  {s : String}

/-- The routine for `print_str` writes the text that the heap holds. -/
theorem printsText_of_holdsText {heap : Machine.Heap} (held : HoldsText heap base s.toList)
    (copy : CopyAt program address place (Library.routine options "io" "print_str" "println_num"))
    (visible : '\x00' ∉ s.toList) (room : base + s.length ≤ Machine.maxAddress) :
    PrintsText program address base s heap := by
  intro m rest same calling
  rw [Library.routine_print] at copy
  have target := copy.marked (d := 0) rfl
  have held' : HoldsText m.state.heap base s.toList := held.congr same
  have written := m.output.text_writeText s.toList
  rw [String.ofList_toList] at written
  exact ⟨_, written, Subroutine.returns calling target (subroutine_print copy held' visible room)⟩

/-- The code of a statement that stores a text stores it, and takes its address off the stack. -/
theorem exists_runs_storeString {m : Machine} {rest : Machine.Stack} (running : m.state.halted = false)
    (code : CodeAt program m.state.pc (emitString s)) (stack : m.state.stack = rest.push base)
    (room : base + s.length ≤ Machine.maxAddress) :
    ∃ heap, StoresText m.state.heap base s.toList heap ∧ ∃ m', Machine.Runs program m m' ∧
      m'.configuration =
        { m.configuration with stack := rest, heap }.runningAt (m.state.pc + (emitString s).length) := by
  obtain ⟨heap, stores, worked⟩ :=
    exists_workAll_store (c := { m.configuration with stack := rest }) (s := s.toList) room
  refine ⟨heap, stores, Machine.runs_of_reaches (Configuration.reaches_of_workAll code worked) ?_⟩
  rw [Configuration.runningAt, ← running]
  exact congrArg (fun stack => { m.configuration with stack }) stack

/-- Texts survive in memory. A text without the character zero, for which there is room at an address, is
    stored by the code of its statement; a line of the input that is the text is stored by the routine that
    reads lines, which takes from the input the text and the line feed. Both leave all else as it was, apart
    from the cells of the text and its zero, and the routine that prints prints the text from then on. -/
theorem texts_survive (visible : '\x00' ∉ s.toList) (room : base + s.length ≤ Machine.maxAddress)
    (print : CopyAt program address place (Library.routine options "io" "print_str" "println_num"))
    (readLine : CopyAt program address place' (Library.routine options "io" "read_line" "read_num"))
    (m : Machine) (rest : Machine.Stack) :
    (m.state.halted = false → CodeAt program m.state.pc (emitString s) → m.state.stack = rest.push base →
      ∃ heap, (∀ k, k < base ∨ base + s.length < k → heap[k]? = m.state.heap[k]?) ∧
        PrintsText program address base s heap ∧
        ∃ m', Machine.Runs program m m' ∧ m'.configuration =
          { m.configuration with stack := rest, heap }.runningAt (m.state.pc + (emitString s).length)) ∧
    ∀ port, '\n' ∉ s.toList → m.input.Yields (s.toList ++ ['\n']) port →
      m.Calling program (address (.named "read_line")) [(base : Int)] rest →
      ∃ heap, (∀ k, k < base ∨ base + s.length < k → heap[k]? = m.state.heap[k]?) ∧
        PrintsText program address base s heap ∧ m.input.remaining = s.toList ++ '\n' :: port.remaining ∧
        m.Returns program { m.configuration with stack := rest, heap, input := port } := by
  constructor
  · intro running code stack
    obtain ⟨heap, stores, m', runs, reached⟩ := exists_runs_storeString running code stack room
    exact ⟨heap, fun k => stores.kept, printsText_of_holdsText stores.holds print visible room, m', runs, reached⟩
  · intro port line yields calling
    rw [Library.routine_readLine] at readLine
    have target := readLine.marked (d := 0) rfl
    obtain ⟨heap, stores, routine⟩ :=
      exists_subroutine_readLine (c := { m.configuration with stack := rest }) readLine yields line room
    have taken := yields.remaining_eq
    rw [List.append_assoc] at taken
    refine ⟨heap, fun k => stores.kept, printsText_of_holdsText stores.holds print visible room, taken, ?_⟩
    exact Subroutine.returns calling target routine

end

/-- A text is stored and printed; later a line that is the same text is read. -/
theorem texts_survive_greeting :
    let main : List Statement :=
      [.push 100, .storeString "hi", .push 100, .call "print_str", .push 100, .call "read_line"]
    let p : LineProgram := (main ++ (Library.printStatements ++ Library.readLineStatements)).map some
    let program := Program.ofInstructions p.code
    let input : Input.Port := ⟨.ofText "hi\n!", []⟩
    let stack := Machine.Stack.empty.push 100
    let storing : Machine := { state := { stack, pc := 1 }, input }
    let printing (heap : Machine.Heap) : Machine := { state := { stack, heap, pc := 18 }, input }
    let reading : Machine := { state := { stack, pc := 20 }, input }
    (∃ heap, (∃ m', Machine.Runs program storing m' ∧
        m'.configuration = { storing.configuration with stack := .empty, heap }.runningAt 17) ∧
      ∃ output : Output, output.text = "hi" ∧
        (printing heap).Returns program { (printing heap).configuration with stack := .empty, output }) ∧
    ∃ heap port, reading.Returns program { reading.configuration with stack := .empty, heap, input := port } ∧
      port.remaining = ['!'] ∧ PrintsText program (p.address 0) 100 "hi" heap := by
  intro main p program input stack storing printing reading
  have print : CopyAt program (p.address 0) (p.place 6)
      (Library.routine {} "io" "print_str" "println_num") := by
    rw [Library.routine_print]
    exact copyAt_statements rfl (by decide +kernel) (by decide +kernel) (by decide +kernel)
  have readLine : CopyAt program (p.address 0) (p.place 19)
      (Library.routine {} "io" "read_line" "read_num") := by
    rw [Library.routine_readLine]
    exact @copyAt_statements p (main ++ Library.printStatements) Library.readLineStatements [] rfl
      (by decide +kernel) (by decide +kernel) (by decide +kernel)
  have code : CodeAt program 1 (emitString "hi") := by
    have copy := @copyAt_statements p [.push 100] [.storeString "hi"]
      (main.drop 2 ++ (Library.printStatements ++ Library.readLineStatements)) rfl
      (by decide +kernel) (by decide +kernel) (by decide +kernel)
    exact copy.codeAt
  have visible : '\x00' ∉ "hi".toList := by decide
  have line : '\n' ∉ "hi".toList := by decide
  have here : program.instruction? 18 = some (.flow (.call (p.address 0 (.named "print_str")))) := by
    decide +kernel
  obtain ⟨port, yields, remaining⟩ := @Input.Port.exists_yields input "hi\n".toList ['!'] true
    (Input.Source.steady_ofText "hi\n!") (by decide)
  have room : 100 + "hi".length ≤ Machine.maxAddress := by decide
  refine ⟨?_, ?_⟩
  · obtain ⟨heap, -, prints, runs⟩ :=
      (texts_survive visible room print readLine storing .empty).1 rfl code rfl
    obtain ⟨output, written, returned⟩ := prints (printing heap) .empty (fun _ _ _ => rfl)
      ⟨rfl, here, rfl⟩
    exact ⟨heap, runs, output, written, returned⟩
  · obtain ⟨heap, -, prints, -, returned⟩ :=
      (texts_survive visible room print readLine reading .empty).2 port line yields
        ⟨rfl, by decide +kernel, rfl⟩
    exact ⟨heap, port, returned, remaining, prints⟩

end Assembly

end Whitespace

/-
Module: Whitespace.Proofs.Routines
Purpose: Routines and their calls. A program may hold a copy of the code of a routine, with any numbers for
  its labels; a call takes the machine into the copy, and what the code does there, piece by piece, takes it
  back to the caller. The code of a library is cut into its routines at the labels they start with.
Main exports: Subroutine, Machine.Calling, Machine.Returns, Subroutine.returns, CopyAt, copyAt_lowered,
  Library.statements, Library.routine
-/
import Whitespace.Proofs.LibraryBlocks
import Whitespace.Proofs.StraightCode

namespace Whitespace

open Whitespace.Configuration (Reaches)

instance (program : Program) : Trans (Reaches program) (Reaches program) (Reaches program) :=
  ⟨Relation.ReflTransGen.trans⟩

/-! ### Calls -/

/-- Called with one configuration, the routine at a place comes back with another. -/
def Subroutine (program : Program) (place : Nat) (c d : Configuration) : Prop :=
  ∀ back, Reaches program ((c.called back).runningAt place) (d.runningAt back)

/-- The machine is about to call the routine at a label, with arguments on top of the rest of the stack. -/
structure Machine.Calling (program : Program) (m : Machine) (l : Label) (arguments : List Int)
    (rest : Machine.Stack) : Prop where
  running : m.state.halted = false
  here : program.instruction? m.state.pc = some (.flow (.call l))
  stack : m.state.stack = arguments.foldl Machine.Stack.push rest

namespace Configuration

/-- Puts values on the stack, the last one on top. -/
def pushAll (c : Configuration) (values : List Int) : Configuration := values.foldl push c

@[simp] theorem pushAll_nil (c : Configuration) : c.pushAll [] = c := rfl

@[simp] theorem pushAll_cons (c : Configuration) (v : Int) (rest : List Int) :
    c.pushAll (v :: rest) = (c.push v).pushAll rest := rfl

theorem pushAll_eq (c : Configuration) (values : List Int) :
    c.pushAll values = { c with stack := values.foldl Machine.Stack.push c.stack } := by
  induction values generalizing c with
  | nil => rfl
  | cons v rest ih => exact ih (c.push v)

theorem called_pushAll (c : Configuration) (values : List Int) (back : Nat) :
    (c.pushAll values).called back = (c.called back).pushAll values := by
  rw [pushAll_eq, pushAll_eq]
  rfl

end Configuration

/-- The machine gets to the instruction after the present one; the rest of its configuration is then as given. -/
def Machine.Returns (program : Program) (m : Machine) (d : Configuration) : Prop :=
  ∃ m', Machine.Runs program m m' ∧ m'.configuration = d.runningAt (m.state.pc + 1)

/-- What a routine does for a configuration it does for the machine that calls it. -/
theorem Subroutine.returns {program : Program} {m : Machine} {l : Label} {arguments : List Int}
    {rest : Machine.Stack} {place : Nat} {d : Configuration} (calling : m.Calling program l arguments rest)
    (target : program.target? l = some place)
    (routine : Subroutine program place ({ m.configuration with stack := rest }.pushAll arguments) d) :
    m.Returns program d := by
  have start : m.configuration = { m.configuration with stack := rest }.pushAll arguments := by
    rw [Configuration.pushAll_eq, ← calling.stack]
    rfl
  refine Machine.runs_of_reaches (c := m.configuration) (.head ?_ (routine (m.state.pc + 1))) rfl
  refine ⟨calling.running, _, calling.here, ?_⟩
  rw [Configuration.obey_call target, ← start, Configuration.called, Configuration.runningAt]
  exact congrArg some (by rw [← calling.running]; rfl)

namespace Assembly

/-! ### Copies of code -/

/-- The program holds a code from a place on, with numbers for its labels, and the labels that the code marks
    lead to where this copy of it marks them. -/
structure CopyAt (program : Program) (address : Reference → Label) (place : Nat) (code : List Symbolic) :
    Prop where
  codeAt : CodeAt program place (code.map (Symbolic.numbered address))
  marked {d : Nat} {r : Reference} : code[d]? = some (.branch .mark r) →
    program.target? (address r) = some (place + (d + 1))

namespace CopyAt

variable {program : Program} {address : Reference → Label} {place : Nat} {code : List Symbolic}
  {c e : Configuration} {d t back : Nat} {r : Reference} (copy : CopyAt program address place code)

include copy

/-- The end of a copy is a copy of the end. -/
theorem drop (d : Nat) : CopyAt program address (place + d) (code.drop d) := by
  constructor
  · intro k i found
    rw [List.getElem?_map, List.getElem?_drop, ← List.getElem?_map] at found
    rw [Nat.add_assoc]
    exact copy.codeAt (d + k) i found
  · intro k r found
    rw [List.getElem?_drop] at found
    rw [Nat.add_assoc]
    exact copy.marked found

/-- An instruction of the copy takes the machine one instruction on, or elsewhere. -/
theorem reaches_of_obey {x : Symbolic} (here : code[d]? = some x)
    (obeyed : (c.runningAt (place + d)).obey program (x.numbered address) = some e) :
    Reaches program (c.runningAt (place + d)) e := by
  refine .single ⟨rfl, _, ?_, obeyed⟩
  apply copy.codeAt d
  rw [List.getElem?_map, here]
  rfl

/-- Instructions of the copy that do not direct control are carried out one after another. -/
theorem straight (d : Nat) (instructions : List Instruction) {next : Nat}
    (here : (code.drop d).take instructions.length = instructions.map .fixed)
    (ends : next = d + instructions.length)
    (worked : c.workAll instructions = some e) :
    Reaches program (c.runningAt (place + d)) (e.runningAt (place + next)) := by
  have codeAt : CodeAt program (place + d) instructions := by
    intro k i found
    rw [Nat.add_assoc]
    apply copy.codeAt (d + k)
    have bound : k < instructions.length := (List.getElem?_eq_some_iff.1 found).1
    have symbolic : code[d + k]? = (instructions.map Symbolic.fixed)[k]? := by
      rw [← here, List.getElem?_take_of_lt bound, List.getElem?_drop]
    rw [List.getElem?_map, symbolic, List.getElem?_map, found]
    rfl
  rw [ends, ← Nat.add_assoc]
  exact Configuration.reaches_of_workAll codeAt worked

theorem mark (d : Nat) (here : code[d]? = some (.branch .mark r)) :
    Reaches program (c.runningAt (place + d)) (c.runningAt (place + (d + 1))) :=
  copy.reaches_of_obey here (Configuration.obey_mark (copy.marked here))

theorem jump (d t : Nat) (here : code[d]? = some (.branch .jump r))
    (marks : code[t]? = some (.branch .mark r)) :
    Reaches program (c.runningAt (place + d)) (c.runningAt (place + (t + 1))) :=
  copy.reaches_of_obey here (Configuration.obey_jump (copy.marked marks))

/-- A value of zero is taken off the stack and leads to the label. -/
theorem jumpZero (d t : Nat) (here : code[d]? = some (.branch .jumpZero r))
    (marks : code[t]? = some (.branch .mark r)) :
    Reaches program ((c.push 0).runningAt (place + d)) (c.runningAt (place + (t + 1))) := by
  refine copy.reaches_of_obey (c := c.push 0) here ?_
  have jumps := Configuration.obey_jumpZero (c := c.runningAt (place + d)) (copy.marked marks) 0
  exact jumps.trans (congrArg some (if_pos rfl))

/-- Any other value is taken off the stack, and control goes on. -/
theorem jumpZero_of_ne (d t : Nat) {v : Int} (nonzero : v ≠ 0) (here : code[d]? = some (.branch .jumpZero r))
    (marks : code[t]? = some (.branch .mark r)) :
    Reaches program ((c.push v).runningAt (place + d)) (c.runningAt (place + (d + 1))) := by
  refine copy.reaches_of_obey (c := c.push v) here ?_
  have passes := Configuration.obey_jumpZero (c := c.runningAt (place + d)) (copy.marked marks) v
  exact passes.trans (congrArg some (if_neg nonzero))

/-- A negative value is taken off the stack and leads to the label. -/
theorem jumpNegative (d t : Nat) {v : Int} (negative : v < 0)
    (here : code[d]? = some (.branch .jumpNegative r)) (marks : code[t]? = some (.branch .mark r)) :
    Reaches program ((c.push v).runningAt (place + d)) (c.runningAt (place + (t + 1))) := by
  refine copy.reaches_of_obey (c := c.push v) here ?_
  have jumps := Configuration.obey_jumpNegative (c := c.runningAt (place + d)) (copy.marked marks) v
  exact jumps.trans (congrArg some (if_pos negative))

/-- Any other value is taken off the stack, and control goes on. -/
theorem jumpNegative_of_nonneg (d t : Nat) {v : Int} (nonneg : 0 ≤ v)
    (here : code[d]? = some (.branch .jumpNegative r)) (marks : code[t]? = some (.branch .mark r)) :
    Reaches program ((c.push v).runningAt (place + d)) (c.runningAt (place + (d + 1))) := by
  refine copy.reaches_of_obey (c := c.push v) here ?_
  have passes := Configuration.obey_jumpNegative (c := c.runningAt (place + d)) (copy.marked marks) v
  exact passes.trans (congrArg some (if_neg (Int.not_lt.2 nonneg)))

/-- A routine comes back to the instruction after the call. -/
theorem call (d : Nat) (here : code[d]? = some (.branch .call r)) (target : program.target? (address r) = some t)
    (routine : Subroutine program t c e) :
    Reaches program (c.runningAt (place + d)) (e.runningAt (place + (d + 1))) := by
  refine (copy.reaches_of_obey here (Configuration.obey_call target)).trans ?_
  exact routine (place + d + 1)

/-- The end of a call. -/
theorem leave (d : Nat) (here : code[d]? = some (.fixed (.flow .ret))) :
    Reaches program ((c.called back).runningAt (place + d)) (c.runningAt back) :=
  copy.reaches_of_obey here (Configuration.obey_ret program _)

omit copy

/-- A routine of straight code. -/
theorem subroutine_straight (instructions : List Instruction) {entry : Reference}
    (copy : CopyAt program address place
      (.branch .mark entry :: (instructions.map .fixed ++ [.fixed (.flow .ret)])))
    (worked : c.workAll instructions = some e) : Subroutine program (place + 1) c e := by
  intro back
  have there : (instructions.map Symbolic.fixed ++ [.fixed (.flow .ret)])[instructions.length]? =
      some (.fixed (.flow .ret)) := by
    rw [List.getElem?_append_right (by simp), List.length_map, Nat.sub_self]
    rfl
  calc
    Reaches program _ ((e.called back).runningAt (place + (instructions.length + 1))) := by
      refine copy.straight 1 instructions ?_ (Nat.add_comm _ _) (Configuration.workAll_called worked back)
      rw [List.drop_succ_cons, List.drop_zero, List.take_append_of_le_length (by simp),
        List.take_of_length_le (by simp)]
    Reaches program _ (e.runningAt back) := copy.leave (instructions.length + 1) there

/-- A routine that hands its call on to another one. -/
theorem subroutine_call {entry : Reference} (copy : CopyAt program address place
      [.branch .mark entry, .branch .call r, .fixed (.flow .ret)])
    (target : program.target? (address r) = some t)
    (routine : ∀ back, Subroutine program t (c.called back) (e.called back)) :
    Subroutine program (place + 1) c e := by
  intro back
  calc
    Reaches program _ ((e.called back).runningAt (place + 2)) := copy.call 1 rfl target (routine back)
    Reaches program _ (e.runningAt back) := copy.leave 2 rfl

end CopyAt

/-! ### Copies in lowered programs -/

/-- Does the instruction refer to the place after its statement? -/
def Symbolic.refersPast : Symbolic → Bool
  | .branch _ .past => true
  | .branch _ (.named _) | .fixed _ => false

instance : DecidablePred Statement.WellFormed
  | .plain i => inferInstanceAs (Decidable (i.label? = none))
  | .push _ | .copy _ | .slide _ | .arithmetic _ _ | .store _ | .retrieve _ | .storeString _ | .label _ | .call _
  | .jump _ _ | .define _ _ => .isTrue trivial

/-- Copies of two pieces of code, one behind the other, are a copy of both. -/
theorem CopyAt.append {program : Program} {address : Reference → Label} {place : Nat} {code more : List Symbolic}
    (first : CopyAt program address place code) (second : CopyAt program address (place + code.length) more) :
    CopyAt program address place (code ++ more) := by
  constructor
  · intro d i found
    rw [List.map_append] at found
    by_cases inside : d < code.length
    · rw [List.getElem?_append_left (by simpa using inside)] at found
      exact first.codeAt d i found
    · rw [List.getElem?_append_right (by simpa using inside), List.length_map] at found
      have there := second.codeAt _ i found
      rwa [Nat.add_assoc, Nat.add_sub_cancel' (Nat.le_of_not_lt inside)] at there
  · intro d r found
    by_cases inside : d < code.length
    · rw [List.getElem?_append_left inside] at found
      exact first.marked found
    · rw [List.getElem?_append_right (Nat.le_of_not_lt inside)] at found
      have there := second.marked found
      rwa [Nat.add_assoc, ← Nat.add_assoc code.length, Nat.add_sub_cancel' (Nat.le_of_not_lt inside)] at there

/-- A copy depends on the addresses of the labels that the code refers to, and on no others. -/
theorem CopyAt.congr {program : Program} {address : Reference → Label} {place : Nat} {code : List Symbolic}
    (copy : CopyAt program address place code) (address' : Reference → Label)
    (same : ∀ b r, .branch b r ∈ code → address' r = address r) : CopyAt program address' place code := by
  constructor
  · have numbers : code.map (Symbolic.numbered address') = code.map (Symbolic.numbered address) := by
      apply List.map_congr_left
      intro x member
      cases x with
      | fixed i => rfl
      | branch b r => simp only [Symbolic.numbered, same b r member]
    rw [numbers]
    exact copy.codeAt
  · intro d r found
    rw [same .mark r (List.mem_of_getElem? found)]
    exact copy.marked found

/-- The code of a line that no later line marks again is a copy of the code of its statement. -/
theorem Layout.copyAt {program : Program} {p : LineProgram} {address : Nat → Reference → Label}
    (layout : Layout program p address) {k : Nat} {s : Statement} (line : p[k]? = some (some s))
    (last : ∀ name, s = .label name → p.labelPlace? name = some (k + 1)) :
    CopyAt program (address k) (p.place k) s.symbolic := by
  refine ⟨layout.codeAt line, ?_⟩
  intro d r found
  have member := List.mem_of_getElem? found
  have after : d + 1 = s.symbolic.length ∧ p.referent? k r = some (k + 1) := by
    cases r with
    | named name =>
        obtain ⟨rfl, rfl⟩ := Statement.mark_named found
        exact ⟨rfl, last name rfl⟩
    | past => exact ⟨(Statement.mark_past found).symm, rfl⟩
  rw [layout.target line member after.2, LineProgram.place_succ line, ← after.1]

section

variable {p before after : LineProgram} {routine : List Statement} {suffix : List Instruction}

/-- Lines in the middle of a program, which marks none of their labels again, are lowered to a copy of their
    code, if they refer to labels by their names alone. -/
theorem copyAt_lowered (wf : p.WellFormed) (unmarked : ∀ l, .flow (.mark l) ∉ suffix)
    (parts : p = before ++ (routine.map some ++ after))
    (named : ∀ s ∈ routine, ∀ x ∈ s.symbolic, x.refersPast = false)
    (once : (routine.filterMap Statement.defines?).Nodup)
    (last : ∀ name ∈ routine.filterMap Statement.defines?, some (.label name) ∉ after) :
    CopyAt (Program.ofInstructions (p.code ++ suffix)) (p.address 0) (p.place before.length)
      (routine.flatMap Statement.symbolic) := by
  induction routine generalizing before with
  | nil => exact ⟨nofun, nofun⟩
  | cons s rest ih =>
      have line : p[before.length]? = some (some s) := by
        rw [parts, List.getElem?_append_right (Nat.le_refl _), Nat.sub_self]
        rfl
      have others := (List.sublist_cons_self s rest).filterMap Statement.defines?
      rw [List.forall_mem_cons] at named
      have copy := (layout_ofInstructions wf unmarked).copyAt line ?_
      · have renumbered := copy.congr (p.address 0) fun b r member => by
          cases r with
          | named name => rfl
          | past => cases named.1 _ member
        have later := @ih (before ++ [some s]) (by simp [parts]) named.2 (once.sublist others)
          fun name member => last name (others.subset member)
        rw [List.length_append, List.length_singleton, LineProgram.place_succ line] at later
        exact renumbered.append later
      · rintro name rfl
        refine LineProgram.labelPlace?_eq_some_iff.2 ⟨_, rfl, line, ?_⟩
        intro k behind again
        -- the label would be marked by a later line of the routine or behind it
        obtain ⟨d, rfl⟩ := Nat.exists_eq_add_of_lt behind
        have bound : before.length ≤ before.length + d + 1 := by omega
        rw [parts, List.getElem?_append_right bound, Nat.add_assoc, Nat.add_sub_cancel_left,
          List.map_cons, List.cons_append, List.getElem?_cons_succ] at again
        rcases List.mem_append.1 (List.mem_of_getElem? again) with inside | outside
        · have twice : name ∈ rest.filterMap Statement.defines? := by
            refine List.mem_filterMap.2 ⟨.label name, ?_, rfl⟩
            simpa using inside
          exact (List.nodup_cons.1 once).1 twice
        · exact last name (by simp [Statement.defines?]) outside

/-- A program of statements holds a copy of the code of those from a position on, if none of the labels that
    are marked there or behind is marked twice. -/
theorem copyAt_statements {before routine after : List Statement}
    (parts : p = (before ++ (routine ++ after)).map some)
    (wf : ∀ s ∈ before ++ (routine ++ after), s.WellFormed)
    (named : ∀ s ∈ routine, ∀ x ∈ s.symbolic, x.refersPast = false)
    (once : ((routine ++ after).filterMap Statement.defines?).Nodup) :
    CopyAt (Program.ofInstructions p.code) (p.address 0) (p.place before.length)
      (routine.flatMap Statement.symbolic) := by
  have formed : p.WellFormed := by
    intro k s line
    have member := List.mem_of_getElem? line
    exact wf s (by simpa [parts] using member)
  rw [List.filterMap_append, List.nodup_append'] at once
  have apart : ∀ name ∈ routine.filterMap Statement.defines?, some (.label name) ∉ after.map some := by
    intro name here there
    have label : .label name ∈ after := by simpa using there
    exact once.2.2 here (List.mem_filterMap.2 ⟨_, label, rfl⟩)
  have copy := @copyAt_lowered p (before.map some) (after.map some) routine [] formed (fun _ => List.not_mem_nil)
    (by simp [parts]) named once.1 apart
  rwa [List.append_nil, List.length_map] at copy

end

/-! ### Libraries -/

/-- The lines from the one that defines a label up to the one that defines another. -/
def LineProgram.between (p : LineProgram) (entry next : String) : LineProgram :=
  (p.dropWhile (· ≠ some (.label entry))).takeWhile (· ≠ some (.label next))

namespace Library

def statements (options : Options) (name : String) : LineProgram :=
  LineProgram.ofLines options [] (ownLines options name)

/-- The lines of a library that are given by their characters, as statements. -/
theorem statements_of_toList {options : Options} {name : String} {given : List String}
    {texts : List (List Char)} {p : LineProgram} (listed : lines? name options.extensions = some given)
    (taken : given.map String.toList = texts)
    (read : LineProgram.ofLines options [] ((numbered name texts).flatMap PendingLine.kept) = p) :
    statements options name = p := by
  rw [statements, ownLines_of_toList listed taken rfl, read]

/-- The code of the routine of a library that starts at a label and goes on up to another. -/
def routine (options : Options) (name entry next : String) : List Symbolic :=
  ((statements options name).between entry next).reduceOption.flatMap Statement.symbolic

end Library

end Assembly

end Whitespace

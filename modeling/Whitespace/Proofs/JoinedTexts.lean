/-
Module: Whitespace.Proofs.JoinedTexts
Purpose: Reading a text that another one follows. What a reader gives depends only on the marks that it
  takes, and places count from the start of the text. So a program is read alike in front of any text, and
  the text behind it as if it stood alone, only that many bytes later; a fault at a symbol stays what it
  is; and only a fault at the end of the text goes away when the text goes on. A cursor gives the same
  instructions and the same fault one after another.
Main exports: ParseCause.blamesEnd, ParseError.later, Carries, readInstruction_carries, parseMarks_carries,
  Cursor.item?_ofText, parseProgram_append
-/
import Mathlib.Data.String.Basic
import Whitespace.Bytecode.Cursor
import Whitespace.Proofs.RoundTrip

namespace Whitespace

/-! ### Places -/

/-- The mark in a text with `d` bytes more in front. -/
def Mark.later (d : Nat) (m : Mark) : Mark := { m with stop := m.stop + d }

def ParseError.later (d : Nat) (e : ParseError) : ParseError := { e with position := e.position + d }

/-- What is read of a text when there are `d` bytes more in front of it. -/
def Parsed.later (d : Nat) (p : Parsed) : Parsed := { p with error? := p.error?.map (.later d) }

/-- Is it the end of the text that is at fault, and no symbol of it? -/
def ParseCause.blamesEnd : ParseCause → Bool
  | .unknownCategory | .unexpectedEnd _ | .unterminatedNumber => true
  | .unknownCommand _ _ | .missingSign => false

@[simp] theorem Mark.symbol_later (d : Nat) (m : Mark) : (m.later d).symbol = m.symbol := rfl

@[simp] theorem Mark.later_zero : Mark.later 0 = id := rfl

theorem byteLength_toList (text : String) : byteLength text.toList = text.utf8ByteSize := by
  have same : ∀ chars, byteLength chars = String.utf8Len chars := by
    intro chars
    induction chars with
    | nil => rfl
    | cons c rest ih => rw [byteLength, ih, String.utf8Len_cons, Nat.add_comm]
  rw [same, ← String.utf8ByteSize_ofList, String.ofList_toList]

/-- The marks of two texts are those of the first and those of the second, further on. -/
theorem scan_append (start : Nat) (first second : List Char) :
    scan start (first ++ second) = scan start first ++ scan (start + byteLength first) second := by
  induction first generalizing start with
  | nil => rfl
  | cons c rest ih =>
      simp only [List.cons_append, scan, byteLength, ← Nat.add_assoc]
      cases Symbol.ofChar? c with
      | none => exact ih _
      | some s => exact congrArg (_ :: ·) (ih _)

/-- A text that starts further on has the same marks further on. -/
theorem scan_later (start d : Nat) (text : List Char) :
    scan (start + d) text = (scan start text).map (Mark.later d) := by
  induction text generalizing start with
  | nil => rfl
  | cons c rest ih =>
      simp only [scan, Nat.add_right_comm start d]
      cases Symbol.ofChar? c with
      | none => exact ih _
      | some s => exact congrArg (_ :: ·) (ih _)

/-! ### Readers -/

/-- A reading of the marks of a text that ends at `stop`, and the reading of the same marks `d` bytes
    later, in front of more marks and in a text that ends at `stop'`. The second is told by the first, up
    to a fault at the end of the text. -/
inductive Carries (stop stop' d : Nat) (more : List Mark) {α : Type} : Reading α → Reading α → Prop where
  | read (a : α) (left : List Mark) :
      Carries stop stop' d more (.ok (a, left)) (.ok (a, left.map (Mark.later d) ++ more))
  | fault {e : ParseError} : e.cause.blamesEnd = false →
      Carries stop stop' d more (.error e) (.error (e.later d))
  | ended {cause : ParseCause} {r : Reading α} : cause.blamesEnd = true →
      (more = [] → r = .error ⟨stop', cause⟩) → Carries stop stop' d more (.error ⟨stop, cause⟩) r

section

variable {stop stop' d : Nat} {more : List Mark}

/-- What carries over still does when something else is made of the result. -/
theorem Carries.map {α β : Type} {r r' : Reading α} (f : α → β) (h : Carries stop stop' d more r r') :
    Carries stop stop' d more (r.map fun x => (f x.1, x.2)) (r'.map fun x => (f x.1, x.2)) := by
  cases h with
  | read a left => exact .read (f a) left
  | fault atSymbol => exact .fault atSymbol
  | ended atEnd alone =>
      refine .ended atEnd fun last => ?_
      rw [alone last]
      rfl

variable (stop stop' d more)

/-- The reading of bits carries over to a longer text further on. -/
theorem readBits_carries (value : Nat) (marks : List Mark) :
    Carries stop stop' d more (readBits stop value marks)
      (readBits stop' value (marks.map (Mark.later d) ++ more)) := by
  induction marks generalizing value with
  | nil =>
      refine .ended rfl ?_
      rintro rfl
      rfl
  | cons m rest ih =>
      simp only [List.map_cons, List.cons_append, readBits, Mark.symbol_later]
      cases m.symbol with
      | space => exact ih _
      | tab => exact ih _
      | lineFeed => exact .read value rest

/-- The reading of an integer carries over to a longer text further on. -/
theorem readInteger_carries (marks : List Mark) :
    Carries stop stop' d more (readInteger stop marks)
      (readInteger stop' (marks.map (Mark.later d) ++ more)) := by
  cases marks with
  | nil =>
      refine .ended rfl ?_
      rintro rfl
      rfl
  | cons m rest =>
      simp only [List.map_cons, List.cons_append, readInteger, Mark.symbol_later]
      have magnitude := readBits_carries stop stop' d more 0 rest
      cases m.symbol with
      | space => exact magnitude.map Int.ofNat
      | tab => exact magnitude.map fun n => -Int.ofNat n
      | lineFeed => exact .fault rfl

theorem templateRead_carries (t : Template) (marks : List Mark) :
    Carries stop stop' d more (t.read stop marks) (t.read stop' (marks.map (Mark.later d) ++ more)) := by
  cases t with
  | complete i => exact .read i marks
  | integer build => exact (readInteger_carries stop stop' d more marks).map fun n => Instruction.stack (build n)
  | label build => exact (readBits_carries stop stop' d more 0 marks).map fun n => Instruction.flow (build ⟨n⟩)

/-- The reading of a command carries over to a longer text further on. -/
theorem readCommand_carries (c : Category) (code : List Symbol) (marks : List Mark) :
    Carries stop stop' d more (readCommand stop c code marks)
      (readCommand stop' c code (marks.map (Mark.later d) ++ more)) := by
  induction marks generalizing code with
  | nil =>
      refine .ended rfl ?_
      rintro rfl
      rfl
  | cons m rest ih =>
      simp only [List.map_cons, List.cons_append, readCommand, Mark.symbol_later]
      cases lookup c (code ++ [m.symbol]) with
      | known t => exact templateRead_carries stop stop' d more t rest
      | incomplete => exact ih _
      | unknown => exact .fault rfl

/-- The reading of an instruction carries over to a longer text further on. -/
theorem readInstruction_carries (first : Symbol) (marks : List Mark) :
    Carries stop stop' d more (readInstruction stop first marks)
      (readInstruction stop' first (marks.map (Mark.later d) ++ more)) := by
  have command (c : Category) := readCommand_carries stop stop' d more c []
  cases first with
  | space => exact command .stack marks
  | lineFeed => exact command .flow marks
  | tab =>
      cases marks with
      | nil =>
          refine .ended rfl ?_
          rintro rfl
          rfl
      | cons m rest =>
          simp only [List.map_cons, List.cons_append, readInstruction, readAfterTab, Mark.symbol_later]
          cases m.symbol with
          | space => exact command .arithmetic rest
          | tab => exact command .heap rest
          | lineFeed => exact command .io rest

end

/-! ### Programs -/

/-- The parser stops at the first instruction that cannot be read. -/
theorem parseMarks_error {stop : Nat} {m : Mark} {rest : List Mark} {e : ParseError}
    (h : readInstruction stop m.symbol rest = .error e) : parseMarks stop (m :: rest) = ⟨[], some e⟩ := by
  rw [parseMarks]
  split
  · next e' he =>
      rw [h] at he
      cases he
      rfl
  · next j left' he =>
      rw [h] at he
      cases he

/-- What is read of marks, and what is read of the same marks `d` bytes later with others after them. -/
inductive Parsed.Carries (stop stop' d : Nat) (more : List Mark) : Parsed → Parsed → Prop where
  | whole (instructions : List Instruction) :
      Carries stop stop' d more ⟨instructions, none⟩
        { parseMarks stop' more with
          instructions := instructions ++ (parseMarks stop' more).instructions }
  | fault {instructions : List Instruction} {e : ParseError} : e.cause.blamesEnd = false →
      Carries stop stop' d more ⟨instructions, some e⟩ ⟨instructions, some (e.later d)⟩
  | ended {instructions : List Instruction} {cause : ParseCause} {p : Parsed} : cause.blamesEnd = true →
      (more = [] → p = ⟨instructions, some ⟨stop', cause⟩⟩) →
      Carries stop stop' d more ⟨instructions, some ⟨stop, cause⟩⟩ p

/-- One more instruction in front carries over. -/
theorem Parsed.Carries.cons {stop stop' d : Nat} {more : List Mark} {p q : Parsed}
    (h : p.Carries stop stop' d more q) (i : Instruction) :
    Parsed.Carries stop stop' d more { p with instructions := i :: p.instructions }
      { q with instructions := i :: q.instructions } := by
  cases h with
  | whole instructions => exact .whole (i :: instructions)
  | fault atSymbol => exact .fault atSymbol
  | ended atEnd alone =>
      refine .ended atEnd fun last => ?_
      rw [alone last]

/-- What is read of marks tells what is read of them in a longer text. -/
theorem parseMarks_carries (stop stop' d : Nat) (more marks : List Mark) :
    (parseMarks stop marks).Carries stop stop' d more
      (parseMarks stop' (marks.map (Mark.later d) ++ more)) := by
  fun_induction parseMarks stop marks with
  | case1 => exact .whole []
  | case2 m rest e read =>
      have longer := readInstruction_carries stop stop' d more m.symbol rest
      rw [read, ← Mark.symbol_later d m] at longer
      generalize result : readInstruction stop' (m.later d).symbol (rest.map (Mark.later d) ++ more) = r
        at longer
      cases longer with
      | fault atSymbol =>
          rw [List.map_cons, List.cons_append, parseMarks_error result]
          exact .fault atSymbol
      | ended atEnd alone =>
          refine .ended atEnd fun last => ?_
          rw [List.map_cons, List.cons_append, parseMarks_error (result.trans (alone last))]
  | case3 m rest i left read shorter tail ih =>
      have longer := readInstruction_carries stop stop' d more m.symbol rest
      rw [read, ← Mark.symbol_later d m] at longer
      generalize result : readInstruction stop' (m.later d).symbol (rest.map (Mark.later d) ++ more) = r
        at longer
      cases longer with
      | read =>
          rw [List.map_cons, List.cons_append, parseMarks_cons result]
          exact ih.cons i

/-- A text further on is parsed into the same instructions, and errors are further on. -/
theorem parseMarks_later (stop d : Nat) (marks : List Mark) :
    parseMarks (stop + d) (marks.map (Mark.later d)) = (parseMarks stop marks).later d := by
  have carried := parseMarks_carries stop (stop + d) d [] marks
  rw [List.append_nil] at carried
  generalize parseMarks stop marks = p, parseMarks (stop + d) (marks.map (Mark.later d)) = q at carried
  cases carried with
  | whole instructions => simp [parseMarks, Parsed.later]
  | fault atSymbol => rfl
  | ended atEnd alone => exact alone rfl

/-- What is read of a text tells what is read of it in front of another text. -/
theorem scanProgram_carries (u v : String) :
    (scanProgram u).Carries u.utf8ByteSize (u ++ v).utf8ByteSize 0
      ((scan 0 v.toList).map (Mark.later u.utf8ByteSize)) (scanProgram (u ++ v)) := by
  have carried := parseMarks_carries u.utf8ByteSize (u ++ v).utf8ByteSize 0
    ((scan 0 v.toList).map (Mark.later u.utf8ByteSize)) (scan 0 u.toList)
  rw [Mark.later_zero, List.map_id, ← scan_later, ← byteLength_toList, ← byteLength_toList,
    ← scan_append, ← String.toList_append] at carried
  rw [← scan_later, ← byteLength_toList, ← byteLength_toList]
  exact carried

/-- A program in front of a text leaves what is read of the text as it is, but for the places. -/
theorem scanProgram_append {u : String} (whole : (scanProgram u).error? = none) (v : String) :
    scanProgram (u ++ v) =
      ⟨(scanProgram u).instructions ++ (scanProgram v).instructions,
        (scanProgram v).error?.map (.later u.utf8ByteSize)⟩ := by
  have behind : parseMarks (u ++ v).utf8ByteSize ((scan 0 v.toList).map (Mark.later u.utf8ByteSize)) =
      (scanProgram v).later u.utf8ByteSize := by
    rw [String.utf8ByteSize_append, Nat.add_comm, parseMarks_later, ← byteLength_toList v]
    rfl
  have carried := scanProgram_carries u v
  generalize scanProgram u = p, scanProgram (u ++ v) = q at carried whole
  cases carried with
  | whole instructions =>
      rw [behind]
      rfl
  | fault atSymbol => cases whole
  | ended atEnd alone => cases whole

/-- A fault at a symbol stays, whatever follows the text. -/
theorem scanProgram_append_of_fault {u : String} {e : ParseError} (fault : (scanProgram u).error? = some e)
    (atSymbol : e.cause.blamesEnd = false) (v : String) : scanProgram (u ++ v) = scanProgram u := by
  have carried := scanProgram_carries u v
  generalize scanProgram u = p, scanProgram (u ++ v) = q at carried fault
  cases carried with
  | whole instructions => cases fault
  | fault _ => rfl
  | ended atEnd _ =>
      cases fault
      rw [atEnd] at atSymbol
      cases atSymbol

/-- A fault at the end of the text is found there. -/
theorem position_of_blamesEnd {u : String} {e : ParseError} (fault : (scanProgram u).error? = some e)
    (atEnd : e.cause.blamesEnd = true) : e.position = u.utf8ByteSize := by
  have carried := scanProgram_carries u ""
  generalize scanProgram u = p, scanProgram (u ++ "") = q at carried fault
  cases carried with
  | whole instructions => cases fault
  | fault atSymbol =>
      cases fault
      rw [atEnd] at atSymbol
      cases atSymbol
  | ended _ _ =>
      cases fault
      rfl

/-- A text of which already the first instruction cannot be read. -/
theorem parseProgram_of_fault {text : String} {m : Mark} {rest : List Mark} {e : ParseError}
    (marks : scan 0 text.toList = m :: rest)
    (fault : readInstruction (byteLength text.toList) m.symbol rest = .error e) :
    parseProgram text = .error e := by
  rw [parseProgram_eq_error_iff_scan, scanProgram, marks, parseMarks_error fault]

/-! ### One instruction after another -/

theorem Cursor.item?_of_done {c : Cursor} (h : c.done = true) (n : Nat) : c.item? n = none := by
  have still : c.next = (none, c) := by
    unfold next
    rw [if_pos h]
  induction n with
  | zero => rw [item?, still]
  | succ n ih => rw [item?, still, ih]

/-- A cursor gives the instructions that are read of its marks, then the fault, and then nothing. -/
theorem Cursor.item?_eq (stop : Nat) (marks : List Mark) (n : Nat) :
    Cursor.item? { stop, marks } n = (parseMarks stop marks).items[n]? := by
  induction n generalizing marks with
  | zero =>
      cases marks with
      | nil => simp [item?, next, parseMarks, Parsed.items]
      | cons m rest =>
          cases read : readInstruction stop m.symbol rest with
          | error e => simp [item?, next, read, parseMarks_error read, Parsed.items]
          | ok result => simp [item?, next, read, parseMarks_cons read, Parsed.items]
  | succ n ih =>
      cases marks with
      | nil => simp [item?, next, parseMarks, Parsed.items, item?_of_done]
      | cons m rest =>
          cases read : readInstruction stop m.symbol rest with
          | error e => simp [item?, next, read, parseMarks_error read, Parsed.items, item?_of_done]
          | ok result => simp [item?, next, read, parseMarks_cons read, Parsed.items, ih]

/-- Reading is compositional. A program in front of a text adds its instructions and its bytes to what is
    read of the text. A fault at a symbol stays the same whatever follows, with all instructions before it;
    any other fault is found at the end of the text. And a text that is read step by step gives the
    instructions before the first fault, that fault, and then nothing. -/
theorem parseProgram_append (u v : String) :
    (∀ program, parseProgram u = .ok program →
      parseProgram (u ++ v) =
        match parseProgram v with
        | .ok more => .ok (program ++ more)
        | .error e => .error (e.later u.utf8ByteSize)) ∧
      (∀ e, parseProgram u = .error e → e.cause.blamesEnd = false →
        parseProgram (u ++ v) = .error e ∧ scanProgram (u ++ v) = scanProgram u) ∧
      (∀ e, parseProgram u = .error e → e.cause.blamesEnd = true → e.position = u.utf8ByteSize) ∧
      ∀ n, (Cursor.ofText u).item? n = (scanProgram u).items[n]? := by
  refine ⟨?_, ?_, ?_, ?_⟩
  · intro program read
    rw [parseProgram_eq_ok_iff_scan] at read
    have joined := scanProgram_append (u := u) (by rw [read]) v
    rw [read] at joined
    cases other : parseProgram v with
    | ok more =>
        rw [parseProgram_eq_ok_iff_scan.1 other] at joined
        exact parseProgram_eq_ok_iff_scan.2 joined
    | error e =>
        apply parseProgram_eq_error_iff_scan.2
        rw [joined, parseProgram_eq_error_iff_scan.1 other]
        rfl
  · intro e read atSymbol
    rw [parseProgram_eq_error_iff_scan] at read
    have same := scanProgram_append_of_fault read atSymbol v
    exact ⟨parseProgram_eq_error_iff_scan.2 (same ▸ read), same⟩
  · intro e read atEnd
    exact position_of_blamesEnd (parseProgram_eq_error_iff_scan.1 read) atEnd
  · exact Cursor.item?_eq (byteLength u.toList) (scan 0 u.toList)

/-- An exit in front of a store that is cut off, an unknown command in front of an exit, and a lone tab. -/
theorem parseProgram_append_cut :
    parseProgram "é\n\n\n" = .ok [.flow .exit] ∧ parseProgram "→\t\t" = .error ⟨5, .unexpectedEnd .heap⟩ ∧
      parseProgram ("é\n\n\n" ++ "→\t\t") = .error ⟨10, .unexpectedEnd .heap⟩ ∧
      parseProgram "\t \t\n" = .error ⟨4, .unknownCommand .arithmetic [.tab, .lineFeed]⟩ ∧
      parseProgram ("\t \t\n" ++ "\n\n\n") = .error ⟨4, .unknownCommand .arithmetic [.tab, .lineFeed]⟩ ∧
      parseProgram "\tx" = .error ⟨2, .unknownCategory⟩ ∧ "\tx".utf8ByteSize = 2 := by
  have exit : parseProgram "é\n\n\n" = .ok [.flow .exit] := parseProgram_of_symbols (by decide +kernel)
  have store : parseProgram "→\t\t" = .error ⟨5, .unexpectedEnd .heap⟩ :=
    @parseProgram_of_fault _ ⟨.tab, 4⟩ [⟨.tab, 5⟩] _ (by decide +kernel) rfl
  have unknown : parseProgram "\t \t\n" = .error ⟨4, .unknownCommand .arithmetic [.tab, .lineFeed]⟩ :=
    @parseProgram_of_fault _ ⟨.tab, 1⟩ [⟨.space, 2⟩, ⟨.tab, 3⟩, ⟨.lineFeed, 4⟩] _ (by decide +kernel) rfl
  have lone : parseProgram "\tx" = .error ⟨2, .unknownCategory⟩ :=
    @parseProgram_of_fault _ ⟨.tab, 1⟩ [] _ (by decide +kernel) rfl
  refine ⟨exit, store, ?_, unknown, ?_, lone, ?_⟩
  · rw [(parseProgram_append _ _).1 _ exit, store]
    rfl
  · exact ((parseProgram_append _ _).2.1 _ unknown rfl).1
  · exact ((parseProgram_append "\tx" "").2.2.1 _ lone rfl).symm

end Whitespace

/-
Module: Whitespace.Proofs.Grammar
Purpose: The words of the instruction set, told by rules and not by a reader. A word is the symbols of a
  category, those of one of its commands, and the operand that the command wants: for an integer a sign,
  binary digits and a line feed, for a label the digits and the line feed alone. Operands may have zeros
  in front or no digits at all. Each reader takes such a word off the front of the marks, and an
  instruction that is read stands there as one of its words.
Main exports: bitsOnto, NaturalWord, IntegerWord, Instruction.key, Instruction.OperandWord,
  Instruction.Word, readInstruction_word, exists_word_of_readInstruction, Instruction.Word.unique
-/
import Mathlib.Data.List.Basic
import Whitespace.Bytecode.Parser

namespace Whitespace

/-! ### Numbers -/

/-- The number that binary digits denote when they follow digits that denote `value`. -/
def bitsOnto (value : Nat) (bits : List Symbol) : Nat :=
  bits.foldl (fun value s => 2 * value + if s = .tab then 1 else 0) value

@[simp] theorem bitsOnto_nil (value : Nat) : bitsOnto value [] = value := rfl

@[simp] theorem bitsOnto_cons (value : Nat) (s : Symbol) (bits : List Symbol) :
    bitsOnto value (s :: bits) = bitsOnto (2 * value + if s = .tab then 1 else 0) bits := rfl

theorem bitsOnto_append (value : Nat) (bits more : List Symbol) :
    bitsOnto value (bits ++ more) = bitsOnto (bitsOnto value bits) more :=
  List.foldl_append

/-- The words for a natural number: any binary digits that denote it, and a line feed. -/
inductive NaturalWord : List Symbol → Nat → Prop where
  | digits {bits : List Symbol} : (∀ s ∈ bits, s ≠ .lineFeed) →
      NaturalWord (bits ++ [.lineFeed]) (bitsOnto 0 bits)

/-- The words for an integer: a space or, for what is not positive, a tab, and its magnitude. -/
inductive IntegerWord : List Symbol → Int → Prop where
  | space {word : List Symbol} {n : Nat} : NaturalWord word n → IntegerWord (.space :: word) n
  | tab {word : List Symbol} {n : Nat} : NaturalWord word n → IntegerWord (.tab :: word) (-n)

/-- Reading takes the digits up to the first line feed, and the line feed. -/
theorem readBits_append {bits : List Symbol} (digits : ∀ s ∈ bits, s ≠ .lineFeed) (stop value : Nat)
    {word : List Mark} (spelled : word.map Mark.symbol = bits ++ [.lineFeed]) (left : List Mark) :
    readBits stop value (word ++ left) = .ok (bitsOnto value bits, left) := by
  induction bits generalizing value word with
  | nil =>
      obtain ⟨m, rest, rfl, hm, hrest⟩ := List.map_eq_cons_iff.1 spelled
      obtain rfl := List.map_eq_nil_iff.1 hrest
      simp [readBits, hm]
  | cons s bits ih =>
      obtain ⟨m, rest, rfl, hm, hrest⟩ := List.map_eq_cons_iff.1 spelled
      have tail := fun value => ih (fun s hs => digits s (List.mem_cons_of_mem _ hs)) value hrest
      have proper : s ≠ .lineFeed := digits s List.mem_cons_self
      cases s with
      | space => simp [readBits, hm, tail]
      | tab => simp [readBits, hm, tail]
      | lineFeed => exact absurd rfl proper

theorem readBits_word (stop : Nat) {n : Nat} {word : List Mark}
    (spelled : NaturalWord (word.map Mark.symbol) n) (left : List Mark) :
    readBits stop 0 (word ++ left) = .ok (n, left) := by
  generalize symbols : word.map Mark.symbol = code at spelled
  cases spelled with
  | digits digits => exact readBits_append digits stop 0 symbols left

/-- A word that spells an integer is read as it, whatever comes after. -/
theorem readInteger_word (stop : Nat) {n : Int} {word : List Mark}
    (spelled : IntegerWord (word.map Mark.symbol) n) (left : List Mark) :
    readInteger stop (word ++ left) = .ok (n, left) := by
  generalize symbols : word.map Mark.symbol = code at spelled
  cases spelled with
  | space magnitude =>
      obtain ⟨m, digits, rfl, sign, rfl⟩ := List.map_eq_cons_iff.1 symbols
      simp only [List.cons_append, readInteger, sign, readBits_word stop magnitude, Except.map,
        Int.ofNat_eq_natCast]
  | tab magnitude =>
      obtain ⟨m, digits, rfl, sign, rfl⟩ := List.map_eq_cons_iff.1 symbols
      simp only [List.cons_append, readInteger, sign, readBits_word stop magnitude, Except.map,
        Int.ofNat_eq_natCast]

/-- The digits that were read stand in front of what is left, with their line feed. -/
theorem exists_bits_of_readBits {stop value n : Nat} {marks left : List Mark}
    (h : readBits stop value marks = .ok (n, left)) :
    ∃ bits word, marks = word ++ left ∧ word.map Mark.symbol = bits ++ [.lineFeed] ∧
      (∀ s ∈ bits, s ≠ .lineFeed) ∧ n = bitsOnto value bits := by
  induction marks generalizing value with
  | nil => simp [readBits] at h
  | cons m rest ih =>
      unfold readBits at h
      split at h
      · next hm =>
          cases h
          exact ⟨[], [m], rfl, by simp [hm], List.forall_mem_nil _, rfl⟩
      · next hm =>
          obtain ⟨bits, word, rfl, spelled, digits, rfl⟩ := ih h
          exact ⟨.space :: bits, m :: word, rfl, by simp [hm, spelled],
            List.forall_mem_cons.2 ⟨by decide, digits⟩, rfl⟩
      · next hm =>
          obtain ⟨bits, word, rfl, spelled, digits, rfl⟩ := ih h
          exact ⟨.tab :: bits, m :: word, rfl, by simp [hm, spelled],
            List.forall_mem_cons.2 ⟨by decide, digits⟩, rfl⟩

theorem exists_word_of_readBits {stop n : Nat} {marks left : List Mark}
    (h : readBits stop 0 marks = .ok (n, left)) :
    ∃ word, marks = word ++ left ∧ NaturalWord (word.map Mark.symbol) n := by
  obtain ⟨bits, word, split, spelled, digits, rfl⟩ := exists_bits_of_readBits h
  exact ⟨word, split, spelled ▸ .digits digits⟩

/-- An integer is read off a word that spells it. -/
theorem exists_word_of_readInteger {stop : Nat} {n : Int} {marks left : List Mark}
    (h : readInteger stop marks = .ok (n, left)) :
    ∃ word, marks = word ++ left ∧ IntegerWord (word.map Mark.symbol) n := by
  unfold readInteger at h
  split at h
  · cases h
  · next m rest =>
      split at h
      · next hm =>
          obtain ⟨⟨magnitude, left⟩, read, same⟩ := map_eq_ok.1 h
          cases same
          obtain ⟨word, rfl, spelled⟩ := exists_word_of_readBits read
          refine ⟨m :: word, rfl, ?_⟩
          rw [List.map_cons, hm]
          exact .space spelled
      · next hm =>
          obtain ⟨⟨magnitude, left⟩, read, same⟩ := map_eq_ok.1 h
          cases same
          obtain ⟨word, rfl, spelled⟩ := exists_word_of_readBits read
          refine ⟨m :: word, rfl, ?_⟩
          rw [List.map_cons, hm]
          exact .tab spelled
      · cases h

/-! ### Commands -/

namespace Instruction

open Whitespace.Symbol in
/-- The symbols of the command, without those of the category and of the operand. -/
def key : Instruction → List Symbol
  | .stack (.push _) => [space]
  | .stack (.copy _) => [tab, space]
  | .stack (.slide _) => [tab, lineFeed]
  | .flow (.mark _) => [space, space]
  | .flow (.call _) => [space, tab]
  | .flow (.jump _) => [space, lineFeed]
  | .flow (.jumpZero _) => [tab, space]
  | .flow (.jumpNegative _) => [tab, tab]
  | i => i.commandCode

/-- The words that may stand for the operand of an instruction; most have none. -/
def OperandWord (word : List Symbol) : Instruction → Prop
  | .stack (.push n) | .stack (.copy n) | .stack (.slide n) => IntegerWord word n
  | .flow (.mark l) | .flow (.call l) | .flow (.jump l) | .flow (.jumpZero l)
  | .flow (.jumpNegative l) => NaturalWord word l.number
  | _ => word = []

/-- The words for an instruction: the symbols of its category, those of its command, and a word for
    its operand. -/
def Word (i : Instruction) (word : List Symbol) : Prop :=
  ∃ operand, i.OperandWord operand ∧ word = i.category.code ++ (i.key ++ operand)

/-- The instruction with its operand left open. -/
def template : Instruction → Template
  | .stack (.push _) => .integer .push
  | .stack (.copy _) => .integer .copy
  | .stack (.slide _) => .integer .slide
  | .flow (.mark _) => .label .mark
  | .flow (.call _) => .label .call
  | .flow (.jump _) => .label .jump
  | .flow (.jumpZero _) => .label .jumpZero
  | .flow (.jumpNegative _) => .label .jumpNegative
  | i => .complete i

/-- The table of commands has an entry for the key of every instruction. -/
theorem lookup_key (i : Instruction) : lookup i.category i.key = .known i.template := by
  rcases i with c | c | c | c | c <;> cases c <;> rfl

/-- A key has one symbol, or it has two and the first of them is no key. -/
theorem key_cases (i : Instruction) :
    (∃ s, i.key = [s]) ∨ ∃ s t, i.key = [s, t] ∧ lookup i.category [s] = .incomplete := by
  rcases i with c | c | c | c | c <;> cases c <;>
    first
      | exact .inl ⟨_, rfl⟩
      | exact .inr ⟨_, _, rfl, rfl⟩

/-- A word for the operand of an instruction fills its template. -/
theorem template_read (stop : Nat) (i : Instruction) {word : List Mark}
    (spelled : i.OperandWord (word.map Mark.symbol)) (left : List Mark) :
    i.template.read stop (word ++ left) = .ok (i, left) := by
  have integer : ∀ {build : Int → StackCommand} {n : Int}, IntegerWord (word.map Mark.symbol) n →
      (Template.integer build).read stop (word ++ left) = .ok (.stack (build n), left) := by
    intro build n h
    simp only [Template.read, readInteger_word stop h, Except.map]
  have label : ∀ {build : Label → FlowCommand} {l : Label},
      NaturalWord (word.map Mark.symbol) l.number →
      (Template.label build).read stop (word ++ left) = .ok (.flow (build l), left) := by
    intro build l h
    simp only [Template.read, readBits_word stop h, Except.map]
  have complete : ∀ {j : Instruction}, word.map Mark.symbol = [] →
      (Template.complete j).read stop (word ++ left) = .ok (j, left) := by
    intro j h
    obtain rfl := List.map_eq_nil_iff.1 h
    rfl
  match i with
  | .stack (.push _) | .stack (.copy _) | .stack (.slide _) => exact integer spelled
  | .flow (.mark _) | .flow (.call _) | .flow (.jump _) | .flow (.jumpZero _)
  | .flow (.jumpNegative _) => exact label spelled
  | .stack .duplicate | .stack .swap | .stack .discard | .arithmetic _ | .heap _ | .flow .ret
  | .flow .exit | .flow .breakpoint | .io _ => exact complete spelled

end Instruction

/-- What a template becomes with a word for the operand that it wants. -/
inductive Template.Filled : Template → List Symbol → Instruction → Prop where
  | complete {i : Instruction} : Filled (.complete i) [] i
  | integer {build : Int → StackCommand} {word : List Symbol} {n : Int} :
      IntegerWord word n → Filled (.integer build) word (.stack (build n))
  | label {build : Label → FlowCommand} {word : List Symbol} {n : Nat} :
      NaturalWord word n → Filled (.label build) word (.flow (build ⟨n⟩))

/-- An operand is read off a word that fills the template. -/
theorem Template.exists_word_of_read {stop : Nat} {t : Template} {i : Instruction}
    {marks left : List Mark} (h : t.read stop marks = .ok (i, left)) :
    ∃ word, marks = word ++ left ∧ t.Filled (word.map Mark.symbol) i := by
  cases t with
  | complete j =>
      cases h
      exact ⟨[], rfl, .complete⟩
  | integer build =>
      obtain ⟨⟨n, left⟩, read, same⟩ := map_eq_ok.1 h
      cases same
      obtain ⟨word, rfl, spelled⟩ := exists_word_of_readInteger read
      exact ⟨word, rfl, .integer spelled⟩
  | label build =>
      obtain ⟨⟨n, left⟩, read, same⟩ := map_eq_ok.1 h
      cases same
      obtain ⟨word, rfl, spelled⟩ := exists_word_of_readBits read
      exact ⟨word, rfl, .label spelled⟩

/-- The table of commands has no entries but the keys of the instructions of the category. -/
theorem key_of_lookup {c : Category} {code word : List Symbol} {t : Template} {i : Instruction}
    (known : lookup c code = .known t) (filled : t.Filled word i) :
    i.category = c ∧ i.key = code ∧ i.OperandWord word := by
  unfold lookup at known
  split at known <;> cases known <;> cases filled <;>
    first
      | exact ⟨rfl, rfl, rfl⟩
      | next spelled => exact ⟨rfl, rfl, spelled⟩

/-- Reading takes the key of a command and goes on with its operand. -/
theorem readCommand_key (stop : Nat) (i : Instruction) {word : List Mark}
    (spelled : word.map Mark.symbol = i.key) (rest : List Mark) :
    readCommand stop i.category [] (word ++ rest) = i.template.read stop rest := by
  have known := i.lookup_key
  obtain ⟨s, key⟩ | ⟨s, t, key, incomplete⟩ := i.key_cases
  · rw [key] at spelled known
    obtain ⟨m, left, rfl, rfl, hleft⟩ := List.map_eq_cons_iff.1 spelled
    obtain rfl := List.map_eq_nil_iff.1 hleft
    simp only [List.cons_append, List.nil_append, readCommand, known]
  · rw [key] at spelled known
    obtain ⟨m, more, rfl, rfl, hmore⟩ := List.map_eq_cons_iff.1 spelled
    obtain ⟨m', left, rfl, rfl, hleft⟩ := List.map_eq_cons_iff.1 hmore
    obtain rfl := List.map_eq_nil_iff.1 hleft
    simp only [List.cons_append, List.nil_append, readCommand, incomplete, known]

/-- A command that is read has its key and a word for its operand in front of what is left. -/
theorem exists_key_of_readCommand {stop : Nat} {c : Category} {code : List Symbol} {i : Instruction}
    {marks left : List Mark} (h : readCommand stop c code marks = .ok (i, left)) :
    ∃ key operand, marks = key ++ (operand ++ left) ∧ i.category = c ∧
      i.key = code ++ key.map Mark.symbol ∧ i.OperandWord (operand.map Mark.symbol) := by
  induction marks generalizing code with
  | nil => simp [readCommand] at h
  | cons m rest ih =>
      simp only [readCommand] at h
      split at h
      · next t known =>
          obtain ⟨operand, rfl, filled⟩ := Template.exists_word_of_read h
          obtain ⟨category, key, spelled⟩ := key_of_lookup known filled
          exact ⟨[m], operand, rfl, category, key, spelled⟩
      · obtain ⟨key, operand, rfl, category, found, spelled⟩ := ih h
        refine ⟨m :: key, operand, rfl, category, ?_, spelled⟩
        rw [found, List.append_assoc]
        rfl
      · cases h

/-! ### Instructions -/

/-- The symbols of a category lead to its commands. -/
theorem readInstruction_category (stop : Nat) (c : Category) {word : List Mark}
    (spelled : word.map Mark.symbol = c.code) :
    ∃ m more, word = m :: more ∧ ∀ rest,
      readInstruction stop m.symbol (more ++ rest) = readCommand stop c [] rest := by
  cases c with
  | stack | flow =>
      obtain ⟨m, more, rfl, hm, hmore⟩ := List.map_eq_cons_iff.1 spelled
      obtain rfl := List.map_eq_nil_iff.1 hmore
      exact ⟨m, [], rfl, fun rest => by simp [readInstruction, hm]⟩
  | arithmetic | heap | io =>
      obtain ⟨m, more, rfl, hm, hmore⟩ := List.map_eq_cons_iff.1 spelled
      obtain ⟨m', none, rfl, hm', hnone⟩ := List.map_eq_cons_iff.1 hmore
      obtain rfl := List.map_eq_nil_iff.1 hnone
      exact ⟨m, [m'], rfl, fun rest => by simp [readInstruction, readAfterTab, hm, hm']⟩

/-- Commands are read only after the symbols of their category. -/
theorem exists_category_of_readInstruction {stop : Nat} {m : Mark} {rest : List Mark}
    {result : Instruction × List Mark} (h : readInstruction stop m.symbol rest = .ok result) :
    ∃ c word marks, m :: rest = word ++ marks ∧ word.map Mark.symbol = Category.code c ∧
      readCommand stop c [] marks = .ok result := by
  unfold readInstruction at h
  split at h
  · next hm => exact ⟨.stack, [m], rest, rfl, by simp [hm, Category.code], h⟩
  · next hm =>
      unfold readAfterTab at h
      split at h
      · cases h
      · next m' marks =>
          split at h
          · next hm' => exact ⟨.arithmetic, [m, m'], marks, rfl, by simp [hm, hm', Category.code], h⟩
          · next hm' => exact ⟨.heap, [m, m'], marks, rfl, by simp [hm, hm', Category.code], h⟩
          · next hm' => exact ⟨.io, [m, m'], marks, rfl, by simp [hm, hm', Category.code], h⟩
  · next hm => exact ⟨.flow, [m], rest, rfl, by simp [hm, Category.code], h⟩

/-- Reading takes a word of an instruction off the front of the marks, and nothing more. -/
theorem readInstruction_word (stop : Nat) {i : Instruction} {word : List Mark}
    (spelled : i.Word (word.map Mark.symbol)) :
    ∃ m more, word = m :: more ∧ ∀ left,
      readInstruction stop m.symbol (more ++ left) = .ok (i, left) := by
  obtain ⟨code, hcode, spelled⟩ := spelled
  obtain ⟨category, command, rfl, hcategory, hcommand⟩ := List.map_eq_append_iff.1 spelled
  obtain ⟨key, operand, rfl, hkey, rfl⟩ := List.map_eq_append_iff.1 hcommand
  obtain ⟨m, more, rfl, read⟩ := readInstruction_category stop i.category hcategory
  refine ⟨m, more ++ (key ++ operand), rfl, ?_⟩
  intro left
  rw [List.append_assoc, read, List.append_assoc, readCommand_key stop i hkey,
    Instruction.template_read stop i hcode]

/-- An instruction that is read stands in front of what is left as one of its words. -/
theorem exists_word_of_readInstruction {stop : Nat} {m : Mark} {i : Instruction}
    {rest left : List Mark} (h : readInstruction stop m.symbol rest = .ok (i, left)) :
    ∃ word, m :: rest = word ++ left ∧ i.Word (word.map Mark.symbol) := by
  obtain ⟨c, category, marks, split, hcategory, read⟩ := exists_category_of_readInstruction h
  obtain ⟨key, operand, rfl, rfl, hkey, hoperand⟩ := exists_key_of_readCommand read
  refine ⟨category ++ (key ++ operand), ?_, operand.map Mark.symbol, hoperand, ?_⟩
  · rw [split, List.append_assoc, List.append_assoc]
  · rw [List.map_append, List.map_append, hcategory, hkey, List.nil_append]

/-- No word is the beginning of another, and none is a word for two instructions. -/
theorem Instruction.Word.unique {i j : Instruction} {word word' rest rest' : List Symbol}
    (first : i.Word word) (second : j.Word word') (same : word ++ rest = word' ++ rest') :
    i = j ∧ word = word' ∧ rest = rest' := by
  -- any marks with these symbols are read as one instruction only
  have marked (code : List Symbol) : (code.map (Mark.mk · 0)).map Mark.symbol = code := by
    simp [Function.comp_def]
  rw [← marked word] at first
  rw [← marked word'] at second
  obtain ⟨m, more, cons, read⟩ := readInstruction_word 0 first
  obtain ⟨m', more', cons', read'⟩ := readInstruction_word 0 second
  have marks := congrArg (List.map (Mark.mk · 0)) same
  rw [List.map_append, List.map_append, cons, cons', List.cons_append, List.cons_append] at marks
  obtain ⟨rfl, tails⟩ := List.cons.inj marks
  have left := read (rest.map (Mark.mk · 0))
  rw [tails, read'] at left
  obtain ⟨rfl, lefts⟩ := Prod.mk.inj (Except.ok.inj left)
  have rests : rest = rest' := by
    rw [← marked rest, ← lefts, marked]
  subst rests
  exact ⟨rfl, List.append_cancel_right same, rfl⟩

end Whitespace

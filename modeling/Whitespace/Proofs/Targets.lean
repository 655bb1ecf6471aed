/-
Module: Whitespace.Proofs.Targets
Purpose: Where the labels of a program stand. The table of a program is filled from the front, so that
  the last mark of a label counts; here a label is found by its marks alone, without the table.
Main exports: positionAfterLast?, positionAfterLast?_eq_some_iff, Program.target?_ofInstructions
-/
import Mathlib.Data.List.Basic
import Whitespace.Program

namespace Whitespace

/-- The position after the last item that passes a test. -/
def positionAfterLast? {α : Type} (test : α → Bool) : List α → Option Nat
  | [] => none
  | a :: rest =>
    match positionAfterLast? test rest with
    | some position => some (position + 1)
    | none => if test a then some 1 else none

section

variable {α : Type} {test : α → Bool} {items : List α}

/-- There is no position after the last item of a kind exactly if there is no such item. -/
theorem positionAfterLast?_eq_none_iff :
    positionAfterLast? test items = none ↔ ∀ a ∈ items, test a = false := by
  induction items with
  | nil => simp [positionAfterLast?]
  | cons a rest ih =>
      rw [positionAfterLast?]
      cases h : positionAfterLast? test rest with
      | none => simpa using fun _ => ih.1 h
      | some position =>
          have found : ¬ ∀ b ∈ rest, test b = false := by
            intro none
            rw [ih.2 none] at h
            cases h
          simp only [reduceCtorEq, List.mem_cons, forall_eq_or_imp, false_iff, not_and]
          intro _
          exact found

/-- There is only one last item that passes the test. -/
theorem eq_of_last {i i' : Nat} {a a' : α} (here : items[i]? = some a) (passed : test a = true)
    (later : ∀ j b, i < j → items[j]? = some b → test b = false) (here' : items[i']? = some a')
    (passed' : test a' = true) (later' : ∀ j b, i' < j → items[j]? = some b → test b = false) :
    i = i' := by
  rcases Nat.lt_trichotomy i i' with before | same | after
  · rw [later i' a' before here'] at passed'
    cases passed'
  · exact same
  · rw [later' i a after here] at passed
    cases passed

/-- The position after the last item that passes the test is found, and no other. -/
theorem positionAfterLast?_eq_some_iff {position : Nat} :
    positionAfterLast? test items = some position ↔
      ∃ i a, position = i + 1 ∧ items[i]? = some a ∧ test a = true ∧
        ∀ j b, i < j → items[j]? = some b → test b = false := by
  induction items generalizing position with
  | nil => simp [positionAfterLast?]
  | cons a rest ih =>
      rw [positionAfterLast?]
      cases h : positionAfterLast? test rest with
      | some last =>
          obtain ⟨i, b, rfl, hb, passed, later⟩ := ih.1 h
          have later' : ∀ j c, i + 1 < j → (a :: rest)[j]? = some c → test c = false := by
            intro j c hj hc
            cases j with
            | zero => cases hj
            | succ j => exact later j c (Nat.lt_of_succ_lt_succ hj) hc
          simp only [Option.some.injEq]
          constructor
          · rintro rfl
            exact ⟨i + 1, b, rfl, hb, passed, later'⟩
          · rintro ⟨k, c, rfl, hc, passed', last⟩
            have here : (a :: rest)[i + 1]? = some b := hb
            rw [eq_of_last here passed later' hc passed' last]
      | none =>
          have failed := positionAfterLast?_eq_none_iff.1 h
          have only : ∀ i b, (a :: rest)[i]? = some b → test b = true → i = 0 := by
            intro i b hb passed
            cases i with
            | zero => rfl
            | succ i =>
                rw [failed b (List.mem_of_getElem? hb)] at passed
                cases passed
          constructor
          · intro found
            cases passed : test a with
            | false =>
                rw [passed] at found
                cases found
            | true =>
                rw [passed] at found
                cases found
                refine ⟨0, a, rfl, rfl, passed, ?_⟩
                intro j b hj hb
                cases j with
                | zero => cases hj
                | succ j => exact failed b (List.mem_of_getElem? hb)
          · rintro ⟨i, b, rfl, hb, passed, -⟩
            obtain rfl := only i b hb passed
            cases hb
            simp [passed]

end

namespace Program

@[simp] theorem instruction?_ofInstructions (instructions : List Instruction) (place : Nat) :
    (ofInstructions instructions).instruction? place = instructions[place]? := by
  simp [instruction?, ofInstructions]

@[simp] theorem size_ofInstructions (instructions : List Instruction) :
    (ofInstructions instructions).size = instructions.length := by
  simp [size, ofInstructions]

/-- The table of the labels holds, for every label, the place after its last mark; a label without a
    mark keeps the entry it had. -/
theorem collectTargets_getElem? (l : Label) (place : Nat) (instructions : List Instruction)
    (targets : Std.TreeMap Nat Nat) :
    (collectTargets place instructions targets)[l.number]? =
      ((positionAfterLast? (· = .flow (.mark l)) instructions).map (place + ·)).or
        targets[l.number]? := by
  induction instructions generalizing place targets with
  | nil => rfl
  | cons i rest ih =>
      by_cases mark : ∃ l', i = .flow (.mark l')
      · obtain ⟨l', rfl⟩ := mark
        rw [collectTargets, ih, positionAfterLast?]
        cases positionAfterLast? (· = Instruction.flow (.mark l)) rest with
        | some position => simp; omega
        | none =>
            by_cases same : l' = l
            · subst same
              simp
            · have different : l'.number ≠ l.number := fun h => same (by cases l; cases l'; cases h; rfl)
              simp [same, Std.TreeMap.getElem?_insert, different]
      · have skip : collectTargets place (i :: rest) targets = collectTargets (place + 1) rest targets := by
          rw [collectTargets]
          intro l' h
          exact mark ⟨l', h⟩
        have other : (i = .flow (.mark l)) = False := eq_false fun h => mark ⟨l, h⟩
        rw [skip, ih, positionAfterLast?]
        cases positionAfterLast? (· = Instruction.flow (.mark l)) rest with
        | some position => simp; omega
        | none => simp [other]

/-- A label stands for the place after its last mark. -/
theorem target?_ofInstructions (instructions : List Instruction) (l : Label) :
    (ofInstructions instructions).target? l =
      positionAfterLast? (· = .flow (.mark l)) instructions := by
  rw [target?, ofInstructions, collectTargets_getElem?]
  cases positionAfterLast? (· = Instruction.flow (.mark l)) instructions <;> simp

end Program

end Whitespace

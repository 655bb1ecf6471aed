/-
Module: Whitespace.Proofs.Numerals
Purpose: Numerals in positional notation, told without a reader. A digit is a decimal digit or, from ten on,
  a letter of either case, and digits denote the number whose digits they are in the radix, the highest one
  first. The digits that are written for a number denote it.
Main exports: IsDigit, Denotes, ofDigits_reverse_cons_cons, isDigit_ten_iff, Denotes.isDigit,
  denotes_digitsValue, denotes_toDigits
-/
import Mathlib.Data.Nat.Digits.Defs
import Mathlib.Data.List.Forall2
import Mathlib.Tactic.IntervalCases
import Mathlib.Tactic.Ring
import Whitespace.Input.Port

namespace Whitespace

/-- The character is the digit with the value. Letters of both cases are digits from ten on. -/
def IsDigit (radix : Nat) (c : Char) (value : Nat) : Prop :=
  value < radix ∧ (c = value.digitChar ∨ c = value.digitChar.toUpper)

/-- The digits denote the number in the radix, the highest digit coming first. No digits denote zero. -/
def Denotes (radix : Nat) (digits : List Char) (n : Nat) : Prop :=
  ∃ values, List.Forall₂ (IsDigit radix) digits values ∧ n = Nat.ofDigits radix values.reverse

/-- The two highest digits count as one, whose value need not be smaller than the radix. -/
theorem ofDigits_reverse_cons_cons (radix first second : Nat) (values : List Nat) :
    Nat.ofDigits radix (first :: second :: values).reverse =
      Nat.ofDigits radix ((radix * first + second) :: values).reverse := by
  rw [Nat.ofDigits_reverse_cons, Nat.ofDigits_reverse_cons, Nat.ofDigits_reverse_cons, List.length_cons]
  ring

section

variable {radix value : Nat} {c : Char} {digits : List Char} {values : List Nat} {n : Nat}

/-- Every character of a numeral is a digit of its radix. -/
theorem Denotes.exists_isDigit (denotes : Denotes radix digits n) (member : c ∈ digits) :
    ∃ value, IsDigit radix c value := by
  obtain ⟨values, each, -⟩ := denotes
  induction each with
  | nil => cases member
  | cons first _ ih =>
      cases member with
      | head => exact ⟨_, first⟩
      | tail _ later => exact ih later

/-! ### Decimal digits -/

/-- The decimal digits are the characters from 0 to 9. -/
theorem isDigit_ten_iff : IsDigit 10 c value ↔ c.isDigit = true ∧ value = c.toNat - '0'.toNat := by
  constructor
  · rintro ⟨small, rfl | rfl⟩
    · rw [Nat.toNat_digitChar_of_lt_ten small, Nat.isDigit_digitChar]
      exact ⟨decide_eq_true small, by simp⟩
    · interval_cases value <;> decide
  · rintro ⟨decimal, rfl⟩
    obtain ⟨low, high⟩ := Char.isDigit_iff_toNat.1 decimal
    have zero : '0'.toNat = 48 := rfl
    have nine : '9'.toNat = 57 := rfl
    have small : c.toNat - '0'.toNat < 10 := by omega
    refine ⟨small, Or.inl (Char.toNat_inj.1 ?_)⟩
    rw [Nat.toNat_digitChar_of_lt_ten small]
    omega

/-- In the radix ten only decimal digits denote anything. -/
theorem Denotes.isDigit (denotes : Denotes 10 digits n) : ∀ c ∈ digits, c.isDigit = true := by
  intro c member
  obtain ⟨v, digit⟩ := denotes.exists_isDigit member
  exact (isDigit_ten_iff.1 digit).1

/-- Reading digits one after another, with the value of those before them. -/
theorem foldl_digits (each : List.Forall₂ (IsDigit 10) digits values) (value : Nat) :
    digits.foldl (fun n c => 10 * n + (c.toNat - '0'.toNat)) value =
      Nat.ofDigits 10 (value :: values).reverse := by
  induction each generalizing value with
  | nil => simp
  | @cons c v digits values first _ ih =>
      obtain ⟨-, rfl⟩ := isDigit_ten_iff.1 first
      rw [List.foldl_cons, ih, ofDigits_reverse_cons_cons]

theorem digitsValue_eq (denotes : Denotes 10 digits n) : Input.digitsValue digits = n := by
  obtain ⟨values, each, rfl⟩ := denotes
  rw [Input.digitsValue, foldl_digits each, Nat.ofDigits_reverse_zero_cons]

theorem denotes_digitsValue (decimal : ∀ c ∈ digits, c.isDigit = true) :
    Denotes 10 digits (Input.digitsValue digits) := by
  have each : List.Forall₂ (IsDigit 10) digits (digits.map fun c => c.toNat - '0'.toNat) := by
    rw [List.forall₂_map_right_iff, List.forall₂_same]
    intro c member
    exact isDigit_ten_iff.2 ⟨decimal c member, rfl⟩
  exact ⟨_, each, digitsValue_eq ⟨_, each, rfl⟩⟩

/-- The digits that are written for a number denote it. -/
theorem denotes_toDigits (n : Nat) : Denotes 10 (Nat.toDigits 10 n) n := by
  have written : Input.digitsValue (Nat.toDigits 10 n) = n := Nat.ofDigitChars_ten_toDigits
  have denotes : Denotes 10 (Nat.toDigits 10 n) (Input.digitsValue (Nat.toDigits 10 n)) :=
    denotes_digitsValue fun _ member => Nat.isDigit_of_mem_toDigits (by decide) (by decide) member
  rwa [written] at denotes

end

end Whitespace

/-
Module: Whitespace.Proofs.IntegerLiterals
Purpose: The texts that are integers in assembly, told by rules. Underscores apart, an integer is written by
  decimal digits with a sign or without, or by the digits of another radix behind the letter that announces
  it, and then without a sign. Exactly these texts are read as integers, and as the ones that they are.
Main exports: Numeral, PlainLiteral, IntegerLiteral, digitValue?_eq_some_iff, naturalOf?_eq_some_iff,
  plainIntegerOf?_eq_some_iff, integerLiteral_toString, integerOf?_eq_some_iff
-/
import Whitespace.Assembly.Integer
import Whitespace.Proofs.Numerals

namespace Whitespace.Assembly

/-- At least one digit, and nothing but digits, which denote the number in the radix. -/
def Numeral (radix : Nat) (digits : List Char) (n : Nat) : Prop :=
  digits ≠ [] ∧ Denotes radix digits n

/-- The letters that announce a radix behind a zero. -/
def radixLetters : List (Char × Nat) :=
  [('x', 16), ('X', 16), ('o', 8), ('O', 8), ('b', 2), ('B', 2)]

/-- How integers are written without underscores. -/
inductive PlainLiteral : List Char → Int → Prop where
  | unsigned {digits : List Char} {n : Nat} : Numeral 10 digits n → PlainLiteral digits n
  | plus {digits : List Char} {n : Nat} : Numeral 10 digits n → PlainLiteral ('+' :: digits) n
  | minus {digits : List Char} {n : Nat} : Numeral 10 digits n → PlainLiteral ('-' :: digits) (-n)
  | announced {letter : Char} {radix : Nat} {digits : List Char} {n : Nat} :
      (letter, radix) ∈ radixLetters → Numeral radix digits n → PlainLiteral ('0' :: letter :: digits) n

/-- How integers are written: underscores may stand anywhere and count for nothing. -/
def IntegerLiteral (text : List Char) (n : Int) : Prop :=
  PlainLiteral (text.filter (· ≠ '_')) n

section

variable {radix value v n : Nat} {c : Char} {digits text : List Char} {i : Int}

/-! ### Digits -/

theorem toNat_digitChar_of_ten_le (letter : 10 ≤ v) (small : v < 16) :
    v.digitChar.toNat = 87 + v ∧ v.digitChar.toUpper.toNat = 55 + v := by
  interval_cases v <;> decide

/-- The digits that are recognised are those of the radix, with their values. -/
theorem digitValue?_eq_some_iff (small : radix ≤ 16) :
    digitValue? radix c = some v ↔ IsDigit radix c v := by
  unfold digitValue?
  rw [Option.filter_eq_some_iff]
  simp only [Char.le_def, UInt32.le_iff_toNat_le, Char.toNat_val]
  constructor
  · rintro ⟨found, below⟩
    have below : v < radix := of_decide_eq_true below
    have v_lt : v < 16 := Nat.lt_of_lt_of_le below small
    refine ⟨below, ?_⟩
    rw [← Char.toNat_inj, ← Char.toNat_inj]
    split_ifs at found with decimal lower upper
    · have same : c.toNat - 48 = v := Option.some.inj found
      have range : 48 ≤ c.toNat ∧ c.toNat ≤ 57 := decimal
      rw [Nat.toNat_digitChar_of_lt_ten (by omega)]
      omega
    · have same : c.toNat - 97 + 10 = v := Option.some.inj found
      have range : 97 ≤ c.toNat := lower.1
      rw [(toNat_digitChar_of_ten_le (by omega) v_lt).1]
      omega
    · have same : c.toNat - 65 + 10 = v := Option.some.inj found
      have range : 65 ≤ c.toNat := upper.1
      rw [(toNat_digitChar_of_ten_le (by omega) v_lt).2]
      omega
  · rintro ⟨below, rfl | rfl⟩
    all_goals
      have v_lt : v < 16 := Nat.lt_of_lt_of_le below small
      interval_cases v <;> simp [Nat.digitChar, below]

/-- Digits are appended exactly if all of them are digits of the radix, and the number is the one that they
    denote. -/
theorem appendDigits_eq_some_iff (small : radix ≤ 16) :
    appendDigits radix value digits = some n ↔ ∃ values, List.Forall₂ (IsDigit radix) digits values ∧
      n = Nat.ofDigits radix (value :: values).reverse := by
  induction digits generalizing value with
  | nil =>
      constructor
      · intro same
        cases same
        exact ⟨[], .nil, by simp⟩
      · rintro ⟨values, each, rfl⟩
        cases each
        simp [appendDigits]
  | cons c rest ih =>
      unfold appendDigits
      cases found : digitValue? radix c with
      | none =>
          refine ⟨nofun, ?_⟩
          rintro ⟨values, each, -⟩
          cases each with
          | cons first _ =>
              rw [(digitValue?_eq_some_iff small).2 first] at found
              cases found
      | some v =>
          have first := (digitValue?_eq_some_iff small).1 found
          rw [ih]
          constructor
          · rintro ⟨values, each, rfl⟩
            exact ⟨v :: values, .cons first each, (ofDigits_reverse_cons_cons _ _ _ _).symm⟩
          · rintro ⟨values, each, rfl⟩
            cases each with
            | cons first' each =>
                rw [(digitValue?_eq_some_iff small).2 first'] at found
                cases found
                exact ⟨_, each, ofDigits_reverse_cons_cons _ _ _ _⟩

/-- Digits are read as the number they denote in the radix. -/
theorem naturalOf?_eq_some_iff (small : radix ≤ 16) :
    naturalOf? radix digits = some n ↔ Numeral radix digits n := by
  unfold naturalOf? Numeral Denotes
  by_cases empty : digits = []
  · simp [empty]
  · simp only [List.isEmpty_iff, empty, if_false, appendDigits_eq_some_iff small, Nat.ofDigits_reverse_zero_cons,
      ne_eq, not_false_eq_true, true_and]

/-- The letters that announce a radix are those of the table. -/
theorem radixOf?_eq_some_iff : radixOf? c = some radix ↔ (c, radix) ∈ radixLetters := by
  unfold radixOf? radixLetters
  split_ifs with hexadecimal octal binary
  · rcases hexadecimal with rfl | rfl <;> simp [eq_comm]
  · rcases octal with rfl | rfl <;> simp [eq_comm]
  · rcases binary with rfl | rfl <;> simp [eq_comm]
  · simp_all

theorem radix_le_of_radixOf? (found : radixOf? c = some radix) : radix ≤ 16 := by
  unfold radixOf? at found
  split_ifs at found <;> cases found <;> decide

/-! ### Integers -/

/-- What consists of decimal digits has no sign and announces no radix. -/
theorem plainIntegerOf?_of_decimal (decimal : ∀ c ∈ digits, c.isDigit = true) :
    plainIntegerOf? digits = (naturalOf? 10 digits).map Int.ofNat := by
  unfold plainIntegerOf?
  split
  · exact absurd (decimal '-' List.mem_cons_self) (by decide)
  · exact absurd (decimal '+' List.mem_cons_self) (by decide)
  · next c rest =>
      cases found : radixOf? c with
      | none => rfl
      | some radix =>
          have digit := decimal c (List.mem_cons_of_mem _ List.mem_cons_self)
          unfold radixOf? at found
          split_ifs at found <;> rcases ‹_ ∨ _› with rfl | rfl <;> cases digit
  · rfl

theorem plainLiteral_of_naturalOf? (read : (naturalOf? 10 digits).map Int.ofNat = some i) :
    PlainLiteral digits i := by
  obtain ⟨n, found, rfl⟩ := Option.map_eq_some_iff.1 read
  exact .unsigned ((naturalOf?_eq_some_iff (by decide)).1 found)

/-- The integers that are recognised without underscores are those of the plain literals. -/
theorem plainIntegerOf?_eq_some_iff : plainIntegerOf? text = some i ↔ PlainLiteral text i := by
  constructor
  · intro read
    unfold plainIntegerOf? at read
    split at read
    · obtain ⟨n, found, rfl⟩ := Option.map_eq_some_iff.1 read
      exact .minus ((naturalOf?_eq_some_iff (by decide)).1 found)
    · obtain ⟨n, found, rfl⟩ := Option.map_eq_some_iff.1 read
      exact .plus ((naturalOf?_eq_some_iff (by decide)).1 found)
    · next c digits =>
        cases announced : radixOf? c with
        | none =>
            simp only [announced] at read
            exact plainLiteral_of_naturalOf? read
        | some radix =>
            simp only [announced] at read
            obtain ⟨n, found, rfl⟩ := Option.map_eq_some_iff.1 read
            have numeral := (naturalOf?_eq_some_iff (radix_le_of_radixOf? announced)).1 found
            exact .announced (radixOf?_eq_some_iff.1 announced) numeral
    · exact plainLiteral_of_naturalOf? read
  · intro literal
    cases literal with
    | unsigned numeral =>
        rw [plainIntegerOf?_of_decimal numeral.2.isDigit, (naturalOf?_eq_some_iff (by decide)).2 numeral]
        rfl
    | plus numeral | minus numeral =>
        simp only [plainIntegerOf?, (naturalOf?_eq_some_iff (by decide)).2 numeral]
        rfl
    | announced letter numeral =>
        have found := radixOf?_eq_some_iff.2 letter
        simp only [plainIntegerOf?, found, (naturalOf?_eq_some_iff (radix_le_of_radixOf? found)).2 numeral]
        rfl

/-! ### The usual form -/

theorem numeral_toDigits (n : Nat) : Numeral 10 (Nat.toDigits 10 n) n :=
  ⟨Nat.toDigits_ne_nil, denotes_toDigits n⟩

/-- An integer is usually written by its decimal digits, with a minus sign in front if it is negative. -/
theorem toList_toString (i : Int) :
    (toString i).toList = if 0 ≤ i then Nat.toDigits 10 i.toNat else '-' :: Nat.toDigits 10 (-i).toNat := by
  rw [Int.toString_eq_repr, Int.repr_eq_if]
  split_ifs <;> simp [Nat.repr_eq_ofList_toDigits]

theorem underscore_not_mem_toString (i : Int) : '_' ∉ (toString i).toList := by
  rw [toList_toString]
  split_ifs
  · exact Nat.underscore_not_in_toDigits
  · exact List.not_mem_cons_of_ne_of_not_mem (by decide) Nat.underscore_not_in_toDigits

/-- The decimal digits of an integer, with a sign if it is negative, are a literal of it. -/
theorem integerLiteral_toString (i : Int) : IntegerLiteral (toString i).toList i := by
  have same : (toString i).toList.filter (· ≠ '_') = (toString i).toList := by
    rw [List.filter_eq_self]
    intro c member
    exact decide_eq_true fun underscore => underscore_not_mem_toString i (underscore ▸ member)
  rw [IntegerLiteral, same, toList_toString]
  split_ifs with sign
  · obtain ⟨n, rfl⟩ := Int.eq_ofNat_of_zero_le sign
    exact .unsigned (numeral_toDigits n)
  · have value : i = -((-i).toNat : Int) := by omega
    have literal := PlainLiteral.minus (numeral_toDigits (-i).toNat)
    rwa [← value] at literal

end

/-- Exactly the texts that are written as integers are read as integers, and each as the integer whose digits
    it has. -/
theorem integerOf?_eq_some_iff (text : List Char) (n : Int) :
    integerOf? text = some n ↔ IntegerLiteral text n :=
  plainIntegerOf?_eq_some_iff

/-- Underscores may part the zero from the letter, and a sign rules out every radix but ten. -/
example : integerOf? "0_x_fF".toList = some 255 ∧ integerOf? "-0xff".toList = none := by decide

end Whitespace.Assembly

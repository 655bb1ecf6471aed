/-
Module: Whitespace.Proofs.BatchedInput
Purpose: Reads of input that comes in batches, told by the whole text. A character is the first one of the text
  that no read has taken; a number is the digits that the text starts with, and the delimiter behind them.
  When the text ends too early nothing is taken. A number that meets anything but a digit or a delimiter
  throws away the batch where it does so, and the batches before. Numbers that were written with delimiters
  behind them are read back.
Main exports: Port.readEach, PlainReads, Port.Tight, NumberRead, Port.Tight.numberRead, Port.ReadsPlainly,
  Port.readsPlainly, Output.writeEntries, reads_plainly
-/
import Whitespace.Output
import Whitespace.Proofs.Readers
import Whitespace.Proofs.Numerals

namespace Whitespace

namespace Input

/-! ### Reads of a text -/

/-- Reads one after another, up to the first that meets text that is no number: how they end, and the port
    after them. -/
def Port.readEach : List ReadKind → Port → List (Outcome Int) × Port
  | [], p => ([], p)
  | kind :: kinds, p =>
    match p.read kind with
    | (outcome, q) =>
      if Reader.refuses outcome then ([outcome], q)
      else
        match q.readEach kinds with
        | (outcomes, r) => (outcome :: outcomes, r)

/-- How reads end when the text is still to come, and the port after them. The batches make up the text and
    what was read before. -/
inductive PlainReads (batches : List String) :
    List Char → List ReadKind → List (Outcome Int) → Port → Prop where
  | done {text : List Char} {p : Port} : p.remaining = text → PlainReads batches text [] [] p
  | character {c : Char} {rest : List Char} {kinds : List ReadKind} {outcomes : List (Outcome Int)} {p : Port} :
      PlainReads batches rest kinds outcomes p →
      PlainReads batches (c :: rest) (.character :: kinds) (.value c.toNat :: outcomes) p
  | noCharacter {kinds : List ReadKind} {outcomes : List (Outcome Int)} {p : Port} :
      PlainReads batches [] kinds outcomes p →
      PlainReads batches [] (.character :: kinds) (.failed .exhausted :: outcomes) p
  | number {digits rest : List Char} {n : Nat} {delimiter : Char} {kinds : List ReadKind}
      {outcomes : List (Outcome Int)} {p : Port} :
      Denotes 10 digits n → isDelimiter delimiter = true → PlainReads batches rest kinds outcomes p →
      PlainReads batches (digits ++ delimiter :: rest) (.number :: kinds) (.value n :: outcomes) p
  | unended {digits : List Char} {n : Nat} {kinds : List ReadKind} {outcomes : List (Outcome Int)} {p : Port} :
      Denotes 10 digits n → PlainReads batches digits kinds outcomes p →
      PlainReads batches digits (.number :: kinds) (.failed .exhausted :: outcomes) p
  /-- The batches up to the one with the character that does not belong to a number are gone. -/
  | malformed {digits forgotten : List Char} {n : Nat} {c : Char} {before left : List String} {batch : String}
      {kinds : List ReadKind} :
      Denotes 10 digits n → c.isDigit = false → isDelimiter c = false →
      batches = before ++ batch :: left → c :: forgotten <:+ batch.toList →
      PlainReads batches (digits ++ c :: (forgotten ++ (String.join left).toList)) (.number :: kinds)
        [.failed (.malformed (String.ofList (digits ++ [c])))] ⟨.ofBatches left, []⟩

section

variable {text digits rest front : List Char} {n : Nat} {c : Char} {p q : Port} {batches : List String}

theorem isDigit_of_isDelimiter (delimiter : isDelimiter c = true) : c.isDigit = false := by
  unfold isDelimiter at delimiter
  simp only [Bool.or_eq_true, decide_eq_true_eq, or_assoc] at delimiter
  rcases delimiter with rfl | rfl | rfl <;> decide

/-- What a text starts with, and what a number makes of it. -/
inductive Scanned : List Char → NumberScan → Prop where
  | complete {digits rest : List Char} {delimiter : Char} : (∀ d ∈ digits, d.isDigit = true) →
      isDelimiter delimiter = true → Scanned (digits ++ delimiter :: rest) (.complete digits rest)
  | malformed {digits rest : List Char} {c : Char} : (∀ d ∈ digits, d.isDigit = true) → c.isDigit = false →
      isDelimiter c = false → Scanned (digits ++ c :: rest) (.malformed (digits ++ [c]))
  | unfinished {digits : List Char} : (∀ d ∈ digits, d.isDigit = true) → Scanned digits .unfinished

/-- The scan finds the digits in front of a text and looks at the character after them. -/
theorem scanned (text : List Char) : Scanned text (scanNumber text) := by
  have whole := List.takeWhile_append_dropWhile (p := Char.isDigit) (l := text)
  have decimal : ∀ d ∈ text.takeWhile Char.isDigit, d.isDigit = true := fun _ => List.mem_takeWhile_imp
  unfold scanNumber
  cases dropped : text.dropWhile Char.isDigit with
  | nil => exact .unfinished (List.dropWhile_eq_nil_iff.1 dropped)
  | cons c rest =>
      have stop := List.head?_dropWhile_not Char.isDigit text
      rw [dropped] at whole stop
      simp only
      split
      · next delimiter =>
          have found := @Scanned.complete _ rest c decimal delimiter
          rwa [whole] at found
      · next other =>
          have found := @Scanned.malformed _ rest c decimal stop (Bool.eq_false_iff.2 other)
          rwa [whole] at found

theorem isDigit_of_unfinished (found : scanNumber text = .unfinished) : ∀ d ∈ text, d.isDigit = true := by
  have spec := scanned text
  rw [found] at spec
  cases spec with
  | unfinished decimal => exact decimal

/-- Digits and a delimiter at the front are a complete number. -/
theorem scanNumber_eq_complete (decimal : ∀ d ∈ digits, d.isDigit = true)
    (delimiter : isDelimiter c = true) : scanNumber (digits ++ c :: rest) = .complete digits rest := by
  have stop : ¬ c.isDigit = true := by
    rw [isDigit_of_isDelimiter delimiter]
    decide
  unfold scanNumber
  rw [List.takeWhile_append_of_pos decimal, List.dropWhile_append_of_pos decimal,
    List.takeWhile_cons_of_neg stop, List.dropWhile_cons_of_neg stop, List.append_nil]
  exact if_pos delimiter

/-! ### What has been delivered -/

/-- The batches that the port does not have yet are the last ones, and it asks for one only after it has met
    nothing but digits: what it keeps is digits and the end of the batch that it got last. -/
inductive Port.Tight (batches : List String) : Port → Prop where
  | digits {before left : List String} {digits : List Char} : batches = before ++ left →
      (∀ d ∈ digits, d.isDigit = true) → Tight batches ⟨.batches left, digits⟩
  | within {before left : List String} {batch : String} {digits tail : List Char} :
      batches = before ++ batch :: left → (∀ d ∈ digits, d.isDigit = true) → tail <:+ batch.toList →
      Tight batches ⟨.batches left, digits ++ tail⟩

namespace Port

theorem tight_ofBatches (batches : List String) : Port.Tight batches ⟨.ofBatches batches, []⟩ :=
  .digits (List.nil_append batches).symm (List.forall_mem_nil _)

/-- A port stays tight when characters are taken from the front of its buffer. -/
theorem Tight.drop (tight : p.Tight batches) (front : List Char) (kept : p.buffer = front ++ rest) :
    Port.Tight batches { p with buffer := rest } := by
  cases tight with
  | digits split decimal =>
      simp only at kept
      subst kept
      exact .digits split (List.forall_mem_append.1 decimal).2
  | @within before left batch digits tail split decimal inside =>
      rcases List.append_eq_append_iff.1 kept with ⟨more, rfl, rfl⟩ | ⟨more, rfl, rfl⟩
      · have shorter : rest <:+ batch.toList := (List.suffix_append more rest).trans inside
        exact @Tight.within _ before left batch [] rest split (List.forall_mem_nil _) shorter
      · exact .within split (List.forall_mem_append.1 decimal).2 inside

/-- After nothing but digits the port may ask for another batch. It gets one unless the input has ended. -/
theorem Tight.refill (tight : p.Tight batches) (decimal : ∀ d ∈ p.buffer, d.isDigit = true) :
    p.refill.2.Tight batches ∧ (p.refill.1 = .filled ∨ p.refill.1 = .failed .exhausted) := by
  obtain ⟨before, left, split, source⟩ :
      ∃ before left, batches = before ++ left ∧ p.source = .batches left := by
    cases tight with
    | digits split => exact ⟨_, _, split, rfl⟩
    | within split => exact ⟨_, _, split.trans (List.append_cons _ _ _), rfl⟩
  obtain ⟨_, kept⟩ := p
  subst source
  cases left with
  | nil => exact ⟨.digits split decimal, Or.inr rfl⟩
  | cons batch more =>
      unfold Port.refill
      simp only [Source.request]
      split
      · exact ⟨.digits (split.trans (List.append_cons _ _ _)) decimal, Or.inr rfl⟩
      · exact ⟨.within split decimal (List.suffix_refl _), Or.inl rfl⟩

/-- A read of a character leaves a tight port tight. -/
theorem Tight.readCharacter (tight : p.Tight batches) : p.readCharacter.2.Tight batches := by
  unfold Port.readCharacter
  cases kept : p.buffer with
  | cons c rest => exact tight.drop [c] kept
  | nil =>
      have nothing : ∀ d ∈ p.buffer, d.isDigit = true := by
        rw [kept]
        exact List.forall_mem_nil _
      have refilled := (tight.refill nothing).1
      generalize p.refill = r at refilled
      obtain ⟨outcome, q⟩ := r
      cases outcome with
      | waiting | failed => exact refilled
      | filled =>
          simp only at refilled ⊢
          cases kept' : q.buffer with
          | nil => exact refilled
          | cons c rest => exact refilled.drop [c] kept'

end Port

/-- How a number is read when the text is still to come: unless it meets what does not belong to a number, the
    port asks for no more than it needs. -/
inductive NumberRead (batches : List String) : List Char → Outcome Int × Port → Prop where
  | kept {text : List Char} {outcome : Outcome Int} {q : Port} : Reader.refuses outcome = false →
      q.Tight batches → NumberRead batches text (outcome, q)
  | malformed {digits forgotten : List Char} {c : Char} {before left : List String} {batch : String} :
      (∀ d ∈ digits, d.isDigit = true) → c.isDigit = false → isDelimiter c = false →
      batches = before ++ batch :: left → c :: forgotten <:+ batch.toList →
      NumberRead batches (digits ++ c :: (forgotten ++ (String.join left).toList))
        (.failed (.malformed (String.ofList (digits ++ [c]))), ⟨.ofBatches left, []⟩)

/-- What does not belong to a number stands in the batch that was delivered last. -/
theorem Port.Tight.malformed (tight : p.Tight batches) (kept : p.buffer = digits ++ c :: rest)
    (decimal : ∀ d ∈ digits, d.isDigit = true) (other : c.isDigit = false)
    (delimiter : isDelimiter c = false) :
    NumberRead batches p.remaining (.failed (.malformed (String.ofList (digits ++ [c]))), p.clear) := by
  cases tight with
  | digits _ all =>
      simp only at kept
      subst kept
      have digit := all c (List.mem_append_right _ List.mem_cons_self)
      rw [other] at digit
      cases digit
  | @within before left batch digits' tail split all inside =>
      have last : c :: rest <:+ batch.toList := by
        rcases List.append_eq_append_iff.1 kept with ⟨more, rfl, rfl⟩ | ⟨more, rfl, same⟩
        · exact (List.suffix_append _ _).trans inside
        · cases more with
          | nil => exact same ▸ inside
          | cons c' more =>
              cases same
              have digit := all c (List.mem_append_right _ List.mem_cons_self)
              rw [other] at digit
              cases digit
      have remaining : Port.remaining ⟨.batches left, digits' ++ tail⟩ =
          digits ++ c :: (rest ++ (String.join left).toList) := by
        simp only at kept
        rw [Port.remaining, kept, Source.remaining, String.toList_join, List.append_assoc, List.cons_append]
      rw [remaining]
      exact .malformed decimal other delimiter split last

/-- What a read of a number comes to on a tight port depends on the text to come alone, and the port stays
    tight unless the text is no number. -/
theorem Port.Tight.numberRead (tight : p.Tight batches) : NumberRead batches p.remaining p.readNumber := by
  fun_induction Port.readNumber p with
  | case1 p digits rest found =>
      have spec := scanned p.buffer
      rw [found] at spec
      generalize buffer : p.buffer = text at spec
      cases spec with
      | @complete _ _ delimiter =>
          rw [List.append_cons] at buffer
          exact .kept rfl (tight.drop _ buffer)
  | case2 p front found =>
      have spec := scanned p.buffer
      rw [found] at spec
      generalize buffer : p.buffer = text at spec
      cases spec with
      | malformed decimal other delimiter => exact tight.malformed buffer decimal other delimiter
  | case3 p found q refilled =>
      have asked := tight.refill (isDigit_of_unfinished found)
      rw [refilled] at asked
      exact .kept rfl asked.1
  | case4 p found e q refilled =>
      obtain ⟨tight', ended⟩ := tight.refill (isDigit_of_unfinished found)
      rw [refilled] at tight' ended
      rcases ended with filled | exhausted
      · cases filled
      · cases exhausted
        exact .kept rfl tight'
  | case5 p found q refilled _ ih =>
      have asked := tight.refill (isDigit_of_unfinished found)
      have remaining := p.remaining_refill
      rw [refilled] at asked remaining
      rw [← remaining]
      exact ih asked.1

/-! ### Reads one after another -/

/-- A read that is not refused is followed by the others. -/
theorem Port.readEach_cons {kind : ReadKind} {outcome : Outcome Int} (read : p.read kind = (outcome, q))
    (kept : Reader.refuses outcome = false) (kinds : List ReadKind) :
    p.readEach (kind :: kinds) = (outcome :: (q.readEach kinds).1, (q.readEach kinds).2) := by
  rw [Port.readEach, read]
  simp only [kept, Bool.false_eq_true, if_false]

theorem Port.readEach_malformed {kind : ReadKind} {text : String}
    (read : p.read kind = (.failed (.malformed text), q)) (kinds : List ReadKind) :
    p.readEach (kind :: kinds) = ([.failed (.malformed text)], q) := by
  rw [Port.readEach, read]
  rfl

/-- Reads from here on are told by the text that is still to come. -/
def Port.ReadsPlainly (batches : List String) (kinds : List ReadKind) (p : Port) : Prop :=
  p.Tight batches → p.source.Steady true →
    PlainReads batches p.remaining kinds (p.readEach kinds).1 (p.readEach kinds).2

/-- A read of a character is plain if all later reads are. -/
theorem Port.readsPlainly_character {kinds : List ReadKind}
    (others : ∀ q : Port, q.ReadsPlainly batches kinds) (p : Port) :
    p.ReadsPlainly batches (.character :: kinds) := by
  intro tight steady
  have reading := reading_readCharacter steady
  have tight' := tight.readCharacter
  generalize p.remaining = text at reading ⊢
  rcases read : p.readCharacter with ⟨outcome, q⟩
  rw [read] at reading tight'
  have polled : p.read .character = Machine.codePoint (outcome, q) := congrArg Machine.codePoint read
  cases text with
  | nil =>
      cases reading with
      | exhausted _ steady' remaining =>
          rw [Port.readEach_cons polled rfl]
          have later := others q tight' steady'
          rw [remaining] at later
          exact .noCharacter later
      | waiting open' => cases open'
  | cons c rest =>
      cases reading with
      | value steady' remaining =>
          rw [Port.readEach_cons polled rfl]
          have later := others q tight' steady'
          rw [remaining] at later
          exact .character later

/-- A read of a number is plain if all later reads are. -/
theorem Port.readsPlainly_number {kinds : List ReadKind}
    (others : ∀ q : Port, q.ReadsPlainly batches kinds) (p : Port) :
    p.ReadsPlainly batches (.number :: kinds) := by
  intro tight steady
  have reading := reading_readNumber steady
  have read := tight.numberRead
  generalize p.remaining = text at reading read ⊢
  rcases polled : p.read .number with ⟨outcome, q⟩
  rw [show p.readNumber = (outcome, q) from polled] at reading read
  cases read with
  | malformed decimal other delimiter split inside =>
      rw [Port.readEach_malformed polled]
      exact .malformed (denotes_digitsValue decimal) other delimiter split inside
  | kept refuses tight' =>
      rw [Port.readEach_cons polled refuses]
      have spec := scanned text
      unfold frontNumber at reading
      generalize scanNumber text = scan at spec reading
      cases spec with
      | complete decimal delimiter =>
          cases reading with
          | value steady' remaining =>
              have later := others q tight' steady'
              rw [remaining] at later
              exact .number (denotes_digitsValue decimal) delimiter later
      | malformed =>
          cases reading
          cases refuses
      | unfinished decimal =>
          cases reading with
          | waiting open' => cases open'
          | exhausted _ steady' remaining =>
              have later := others q tight' steady'
              rw [remaining] at later
              exact .unended (denotes_digitsValue decimal) later

/-- By induction on the reads, any sequence of reads is plain. -/
theorem Port.readsPlainly (batches : List String) (kinds : List ReadKind) (p : Port) :
    p.ReadsPlainly batches kinds := by
  induction kinds generalizing p with
  | nil =>
      intro _ _
      exact .done rfl
  | cons kind kinds ih =>
      cases kind with
      | character => exact Port.readsPlainly_character ih p
      | number => exact Port.readsPlainly_number ih p

theorem frontNumber_written (denotes : Denotes 10 digits n) (delimiter : isDelimiter c = true) :
    frontNumber (digits ++ c :: rest) = .taken n rest := by
  rw [frontNumber, scanNumber_eq_complete denotes.isDigit delimiter]
  simp only [digitsValue_eq denotes]

/-- Numbers with delimiters behind them are read back, and nothing of them is left. -/
theorem readEach_written {entries : List (Nat × Char)} (delimited : ∀ e ∈ entries, isDelimiter e.2 = true)
    (steady : p.source.Steady true)
    (remaining : p.remaining = entries.flatMap fun e => Nat.toDigits 10 e.1 ++ [e.2]) :
    ∃ q, p.readEach (List.replicate entries.length .number) =
      (entries.map fun e => .value e.1, q) ∧ q.remaining = [] := by
  induction entries generalizing p with
  | nil => exact ⟨p, rfl, remaining⟩
  | cons e entries ih =>
      obtain ⟨delimiter, others⟩ := List.forall_mem_cons.1 delimited
      have reading := reading_readNumber steady
      rw [remaining, List.flatMap_cons, List.append_assoc, List.singleton_append,
        frontNumber_written (denotes_toDigits e.1) delimiter] at reading
      rcases polled : p.read .number with ⟨outcome, q⟩
      rw [show p.readNumber = (outcome, q) from polled] at reading
      cases reading with
      | value steady' remaining' =>
          obtain ⟨last, read, nothing⟩ := ih others steady' remaining'
          refine ⟨last, ?_, nothing⟩
          rw [List.length_cons, List.replicate_succ, Port.readEach_cons polled rfl, read]
          rfl

end

end Input

/-! ### Written numbers -/

namespace Output

def writeEntries (o : Output) (entries : List (Nat × Char)) : Output :=
  entries.foldl (fun o e => (o.writeNumber e.1).writeCharacter e.2) o

/-- Numbers and the characters behind them are written one after another. -/
theorem text_writeEntries (o : Output) (entries : List (Nat × Char)) :
    (o.writeEntries entries).text =
      o.text ++ String.ofList (entries.flatMap fun e => Nat.toDigits 10 e.1 ++ [e.2]) := by
  induction entries generalizing o with
  | nil => simp [writeEntries]
  | cons e entries ih =>
      have first : ((o.writeNumber e.1).writeCharacter e.2).text =
          o.text ++ String.ofList (Nat.toDigits 10 e.1 ++ [e.2]) := by
        have digits : toString (e.1 : Int) = String.ofList (Nat.toDigits 10 e.1) :=
          Nat.toString_eq_ofList_toDigits
        simp [text, pieces, writeNumber, writeCharacter, write, String.join_append, digits]
      calc
        (o.writeEntries (e :: entries)).text =
            ((o.writeNumber e.1).writeCharacter e.2).text ++
              String.ofList (entries.flatMap fun e => Nat.toDigits 10 e.1 ++ [e.2]) := ih _
        _ = o.text ++ String.ofList ((e :: entries).flatMap fun e => Nat.toDigits 10 e.1 ++ [e.2]) := by
          rw [first, String.append_assoc, ← String.ofList_append, List.flatMap_cons]

end Output

namespace Input

/-- Reads of input that comes in batches are told by the whole text, up to the first that meets text that is
    no number. Numbers that were written with a delimiter behind each are read back, however the text is cut
    into batches. -/
theorem reads_plainly {batches : List String} (nonempty : "" ∉ batches) :
    (∀ kinds, PlainReads batches (String.join batches).toList kinds
      (Port.readEach kinds ⟨.ofBatches batches, []⟩).1 (Port.readEach kinds ⟨.ofBatches batches, []⟩).2) ∧
    ∀ entries : List (Nat × Char), (∀ e ∈ entries, isDelimiter e.2 = true) →
      String.join batches = (Output.writeEntries {} entries).text →
      ∃ q, Port.readEach (List.replicate entries.length .number) ⟨.ofBatches batches, []⟩ =
        (entries.map fun e => .value e.1, q) ∧ q.remaining = [] := by
  have steady := Source.steady_ofBatches nonempty
  have remaining : Port.remaining ⟨.ofBatches batches, []⟩ = (String.join batches).toList :=
    String.toList_join.symm
  constructor
  · intro kinds
    rw [← remaining]
    exact Port.readsPlainly batches kinds _ (Port.tight_ofBatches batches) steady
  · intro entries delimited written
    apply readEach_written delimited steady
    rw [remaining, written, Output.text_writeEntries, String.toList_append, String.toList_ofList]
    rfl

/-- A number is cut in two, and another one meets a letter: the rest of its batch is gone, and the next batch
    has not been asked for. Two numbers that were written are read back from three batches. -/
theorem reads_plainly_cut :
    PlainReads ["1", "2 x7z5", "q"] "12 x7z5q".toList [.number, .character, .number]
        [.value 12, .value 120, .failed (.malformed "7z")] ⟨.ofBatches ["q"], []⟩ ∧
      ∃ q, Port.readEach [.number, .number] ⟨.ofBatches ["1", "0\t3", "\n"], []⟩ =
        ([.value 10, .value 3], q) ∧ q.remaining = [] := by
  have read : Port.readEach [.number, .character, .number] ⟨.ofBatches ["1", "2 x7z5", "q"], []⟩ =
      ([.value 12, .value 120, .failed (.malformed "7z")], ⟨.ofBatches ["q"], []⟩) := by decide +kernel
  have whole : String.join ["1", "2 x7z5", "q"] = "12 x7z5q" := by decide
  have nonempty : "" ∉ ["1", "2 x7z5", "q"] := by decide
  have plain := (reads_plainly nonempty).1 [.number, .character, .number]
  rw [read, whole] at plain
  have nonempty' : "" ∉ ["1", "0\t3", "\n"] := by decide
  have written : String.join ["1", "0\t3", "\n"] = (Output.writeEntries {} [(10, '\t'), (3, '\n')]).text := by
    decide +kernel
  exact ⟨plain, (reads_plainly nonempty').2 [(10, '\t'), (3, '\n')] (by decide) written⟩

end Input

end Whitespace

/-
Module: Whitespace.Proofs.Readers
Purpose: Reads of one port that are started, polled and dropped while the feeding side acts. A read that
  completes takes its text from the front of the text that is still to come, and a read that brings nothing
  takes nothing, unless it meets text that is no number.
Main exports: ReadKind, ReadKind.Spells, Port.read, Port.Sound, remaining_of_read, refilled_of_read, Reader,
  Reader.Event, Reader.after, Reader.follow, Reader.allProper
-/
import Mathlib.Data.List.Forall2
import Mathlib.Data.List.TakeWhile
import Whitespace.Proofs.Atomicity
import Whitespace.Proofs.LateInput

namespace Whitespace.Input

/-! ### Reads -/

/-- What a read asks for. -/
inductive ReadKind where
  | character
  | number
deriving Repr, DecidableEq

/-- Polls a read. A character counts as its code point. -/
def Port.read (p : Port) : ReadKind → Outcome Int × Port
  | .character => Machine.codePoint p.readCharacter
  | .number => p.readNumber

/-- The text that a completed read of a kind takes for a value. -/
def ReadKind.Spells : ReadKind → List Char → Int → Prop
  | .character, text, value => ∃ c, text = [c] ∧ value = c.toNat
  | .number, text, value => ∃ digits delimiter, text = digits ++ [delimiter] ∧
      (∀ c ∈ digits, c.isDigit = true) ∧ isDelimiter delimiter = true ∧ value = digitsValue digits

section

variable {p p' : Port} {kind : ReadKind} {value : Int}

/-- A complete number at the front consists of digits and the delimiter behind them. -/
theorem scanNumber_complete {text digits rest : List Char}
    (scanned : scanNumber text = .complete digits rest) :
    ∃ delimiter, text = digits ++ [delimiter] ++ rest ∧ (∀ c ∈ digits, c.isDigit = true) ∧
      isDelimiter delimiter = true := by
  unfold scanNumber at scanned
  have whole := List.takeWhile_append_dropWhile (p := Char.isDigit) (l := text)
  cases dropped : text.dropWhile Char.isDigit with
  | nil => simp [dropped] at scanned
  | cons c more =>
      rw [dropped] at scanned whole
      simp only at scanned
      split at scanned
      · next ends =>
        cases scanned
        refine ⟨c, ?_, fun _ => List.mem_takeWhile_imp, ends⟩
        rw [List.append_assoc]
        exact whole.symm
      · cases scanned

/-- A read that completes has asked for text, any number of times, and takes the text of its value from the
    front of the buffer. -/
theorem takes_of_read (completed : p.read kind = (.value value, p')) :
    ∃ q text, p.Refilled q ∧ kind.Spells text value ∧ q.buffer = text ++ p'.buffer ∧
      p'.source = q.source := by
  cases kind with
  | character =>
      unfold Port.read Machine.codePoint at completed
      unfold Port.readCharacter at completed
      cases buffered : p.buffer with
      | cons c rest =>
          simp only [buffered] at completed
          cases completed
          exact ⟨p, [c], .refl p, ⟨c, rfl, rfl⟩, buffered, rfl⟩
      | nil =>
          rcases filled : p.refill with ⟨r, q⟩
          simp only [buffered, filled] at completed
          cases r with
          | waiting | failed => cases completed
          | filled =>
              cases more : q.buffer with
              | nil =>
                  simp only [more] at completed
                  cases completed
              | cons c rest =>
                  simp only [more] at completed
                  cases completed
                  exact ⟨q, [c], .of_refill filled, ⟨c, rfl, rfl⟩, more, rfl⟩
  | number =>
      unfold Port.read at completed
      simp only at completed
      fun_induction Port.readNumber p with
      | case1 p digits rest scanned =>
          cases completed
          obtain ⟨delimiter, text, all, ends⟩ := scanNumber_complete scanned
          exact ⟨p, digits ++ [delimiter], .refl p, ⟨digits, delimiter, rfl, all, ends, rfl⟩, text, rfl⟩
      | case2 | case3 | case4 => cases completed
      | case5 p scanned q filled _ ih =>
          obtain ⟨q', text, refilled, rest⟩ := ih completed
          refine ⟨q', text, .head ?_, rest⟩
          rw [filled]
          exact refilled

/-- A port over an orderly feed. -/
def Port.Sound (p : Port) : Prop := p.source.Orderly ∧ p.Fed

/-- Reads that complete take their text from the front of the text that is still to come. -/
theorem remaining_of_read (completed : p.read kind = (.value value, p')) :
    ∃ text, kind.Spells text value ∧ p.remaining = text ++ p'.remaining := by
  obtain ⟨q, text, refilled, spells, buffer, source⟩ := takes_of_read completed
  refine ⟨text, spells, ?_⟩
  rw [← refilled.remaining_eq, Port.remaining, Port.remaining, buffer, source, List.append_assoc]

/-- Reads that bring nothing take nothing, unless they meet text that is no number. -/
theorem refilled_of_read {o : Outcome Int} (polled : p.read kind = (o, p')) (none : ∀ n, o ≠ .value n)
    (number : ∀ text, o ≠ .failed (.malformed text)) : p.Refilled p' := by
  have reads : Machine.Reads p (o, p') := by
    cases kind with
    | character => exact .inl polled.symm
    | number => exact .inr polled.symm
  exact (Machine.refilled_of_reads reads none number).1

theorem Feed.orderly_abandon (f : Feed) : f.abandon.Orderly := by
  obtain ⟨pending, closed, waiter⟩ := f
  cases waiter <;> exact nofun

end

/-! ### Readers -/

/-- A port, the read that is under way, and the values of the reads that have completed. -/
structure Reader where
  port : Port
  kind? : Option ReadKind := none
  values : List (ReadKind × Int) := []
deriving Repr, DecidableEq

namespace Reader

/-- What can happen to a reader. -/
inductive Event where
  /-- A read is started; nothing is asked for before it is polled. -/
  | start (kind : ReadKind)
  | poll
  /-- The read under way is dropped. -/
  | drop
  | act (a : Action)
deriving Repr, DecidableEq

/-- The reader after an event. One read is under way at a time. -/
def after (r : Reader) : Event → Reader
  | .start kind =>
    match r.kind? with
    | none => { r with kind? := some kind }
    | some _ => r
  | .poll =>
    match r.kind? with
    | none => r
    | some kind =>
      match r.port.read kind with
      | (.value value, port) => ⟨port, none, r.values ++ [(kind, value)]⟩
      | (.failed _, port) => ⟨port, none, r.values⟩
      | (.waiting, port) => { r with port }
  | .drop =>
    match r.kind? with
    | none => r
    | some _ => { r with port := r.port.abandon, kind? := none }
  | .act a => { r with port := r.port.act a }

def Event.text : Event → List Char
  | .act a => a.text
  | .start _ | .poll | .drop => []

/-- Is the outcome the meeting with text that is no number? -/
def refuses : Outcome Int → Bool
  | .failed (.malformed _) => true
  | .value _ | .waiting | .failed .exhausted | .failed .cancelled => false

/-- Does the event neither call the input off nor poll a read that meets text that is no number? -/
def isProper (r : Reader) : Event → Bool
  | .act a => a ≠ .cancel
  | .poll =>
    match r.kind? with
    | none => true
    | some kind => !refuses (r.port.read kind).1
  | .start _ | .drop => true

def allProper : Reader → List Event → Bool
  | _, [] => true
  | r, e :: rest => r.isProper e && (r.after e).allProper rest

/-- The reader after events that have happened one after another. -/
def follow (r : Reader) (events : List Event) : Reader := events.foldl after r

/-- A reader of a port into which nothing has been fed yet. -/
def fresh : Reader := ⟨⟨.fresh, []⟩, none, []⟩

end Reader

end Whitespace.Input

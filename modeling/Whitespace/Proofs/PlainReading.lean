/-
Module: Whitespace.Proofs.PlainReading
Purpose: A read depends on the text that is still to come and on nothing else. However the text is spread
  over the buffer, the feed and the batches of a source, a read takes what stands at its front, refuses it,
  or finds too little of it; only in the last case does it matter whether the input has ended. This holds of
  every source that has something to give whenever it gives a batch before its end.
Main exports: Feed.Steady, Source.Steady, Front, Front.append, Reading, reading_readCharacter,
  reading_readNumber
-/
import Whitespace.Proofs.RemainingInput

namespace Whitespace.Input

/-! ### Steady sources -/

/-- A feed that nobody has called off. A read is parked only while there is nothing to give it, and is told
    the end of the input only when there is nothing left. -/
structure Feed.Steady (ended : Bool) (f : Feed) : Prop where
  closed_eq : f.closed = ended
  kept : f.waiter ≠ .revoked
  parked : f.waiter = .parked → f.pending = "" ∧ ended = false
  dismissed : f.waiter = .answered "" → f.pending = "" ∧ ended = true

/-- A source whose input has ended or not, and that gives an empty batch only at the end. -/
def Source.Steady (ended : Bool) : Source → Prop
  | .text _ => ended = true
  | .batches rest => ended = true ∧ "" ∉ rest
  | .feed f => f.Steady ended

section

variable {f : Feed} {s : Source} {ended : Bool} {text : String}

/-- Where no read is under way, only the end of the input has to be known. -/
theorem Feed.steady_absent (pending : String) (closed : Bool) :
    Feed.Steady closed ⟨pending, closed, .absent⟩ :=
  ⟨rfl, nofun, nofun, nofun⟩

theorem Feed.steady_fresh : Feed.Steady false {} := Feed.steady_absent "" false

theorem Feed.Steady.orderly (steady : f.Steady ended) : f.Orderly := by
  intro parked
  obtain ⟨empty, open'⟩ := steady.parked parked
  exact ⟨empty, steady.closed_eq.trans open'⟩

/-- A steady feed stays so when text is fed. -/
theorem Feed.Steady.feed (steady : f.Steady false) (text : String) : (f.feed text).Steady false := by
  by_cases empty : text = ""
  · simpa [Feed.feed, empty] using steady
  · obtain ⟨pending, closed, waiter⟩ := f
    have closed_eq := steady.closed_eq
    cases waiter with
    | absent | abandoned => constructor <;> simp_all [Feed.feed]
    | parked => constructor <;> simp_all [Feed.feed]
    | revoked => exact absurd rfl steady.kept
    | answered sent =>
        have sent_ne : sent ≠ "" := by
          rintro rfl
          cases (steady.dismissed rfl).2
        constructor <;> simp_all [Feed.feed]

/-- A steady feed stays so when it is closed, and its input has then ended. -/
theorem Feed.Steady.close (steady : f.Steady false) : f.close.Steady true := by
  obtain ⟨pending, closed, waiter⟩ := f
  cases waiter with
  | absent | abandoned => constructor <;> simp [Feed.close]
  | parked =>
      obtain ⟨empty, -⟩ := steady.parked rfl
      constructor <;> simp_all [Feed.close]
  | revoked => exact absurd rfl steady.kept
  | answered sent =>
      have sent_ne : sent ≠ "" := by
        rintro rfl
        cases (steady.dismissed rfl).2
      constructor <;> simp_all [Feed.close]

theorem Feed.Steady.abandon (steady : f.Steady ended) : f.abandon.Steady ended := by
  obtain ⟨pending, closed, waiter⟩ := f
  obtain rfl : closed = ended := steady.closed_eq
  cases waiter with
  | absent | abandoned => exact steady
  | parked => exact ⟨rfl, nofun, nofun, nofun⟩
  | answered | revoked => exact Feed.steady_absent pending closed

/-- The text that is kept back may be handed over at any time. -/
theorem Feed.Steady.taken (steady : f.Steady ended) : Feed.Steady ended { f with pending := "" } :=
  ⟨steady.closed_eq, steady.kept, fun parked => ⟨rfl, (steady.parked parked).2⟩,
    fun dismissed => ⟨rfl, (steady.dismissed dismissed).2⟩⟩

/-- What a request to a feed comes to. -/
theorem Feed.Steady.request (steady : f.Steady ended) :
    f.request.2.Steady ended ∧ f.request.1 ≠ .cancelled ∧
      (f.request.1 = .batch "" → f.request.2.remaining = [] ∧ ended = true) ∧
      (f.request.1 = .waiting → f.request.2.remaining = [] ∧ ended = false) := by
  obtain ⟨pending, closed, waiter⟩ := f
  obtain rfl : closed = ended := steady.closed_eq
  cases waiter with
  | revoked => exact absurd rfl steady.kept
  | parked =>
      obtain ⟨empty, open'⟩ := steady.parked rfl
      refine ⟨steady, ?_, ?_, fun _ => ⟨?_, open'⟩⟩
      all_goals simp_all [Feed.request, Feed.remaining, Waiter.sent]
  | answered sent =>
      refine ⟨Feed.steady_absent pending closed, ?_, ?_, ?_⟩
      · simp [Feed.request]
      · intro told
        obtain rfl : sent = "" := Reply.batch.inj told
        obtain ⟨empty, closed'⟩ := steady.dismissed rfl
        refine ⟨?_, closed'⟩
        simp_all [Feed.request, Feed.remaining, Waiter.sent]
      · simp [Feed.request]
  | absent | abandoned =>
      by_cases empty : pending = ""
      · subst empty
        cases closed with
        | true => simp_all [Feed.request, Feed.remaining, Waiter.sent]
        | false =>
            have parked : Feed.Steady false ⟨"", false, .parked⟩ := by
              constructor <;> simp
            simp_all [Feed.request, Feed.remaining, Waiter.sent]
      · have taken := steady.taken
        constructor <;> simp_all [Feed.request]

/-- A steady source brings nothing only when it has nothing to bring, and it never calls a read off. -/
theorem Source.Steady.request (steady : s.Steady ended) :
    s.request.2.Steady ended ∧ s.request.1 ≠ .cancelled ∧
      (s.request.1 = .batch "" → s.request.2.remaining = [] ∧ ended = true) ∧
      (s.request.1 = .waiting → s.request.2.remaining = [] ∧ ended = false) := by
  cases s with
  | text rest =>
      cases rest with
      | none => exact ⟨steady, nofun, fun _ => ⟨rfl, steady⟩, nofun⟩
      | some text => exact ⟨steady, nofun, fun _ => ⟨rfl, steady⟩, nofun⟩
  | batches rest =>
      obtain ⟨ended_eq, nonempty⟩ := steady
      cases rest with
      | nil => exact ⟨⟨ended_eq, nonempty⟩, nofun, fun _ => ⟨rfl, ended_eq⟩, nofun⟩
      | cons text more =>
          have others : "" ∉ more := List.not_mem_of_not_mem_cons nonempty
          refine ⟨⟨ended_eq, others⟩, nofun, ?_, nofun⟩
          intro told
          exact absurd (Reply.batch.inj told).symm (List.ne_of_not_mem_cons nonempty)
  | feed f => exact Feed.Steady.request steady

theorem Source.steady_ofText (text : String) : (Source.ofText text).Steady true := rfl

theorem Source.steady_ofBatches {batches : List String} (nonempty : "" ∉ batches) :
    (Source.ofBatches batches).Steady true :=
  ⟨rfl, nonempty⟩

theorem Source.steady_fresh : Source.fresh.Steady false := Feed.steady_fresh

end

/-! ### The front of a text -/

/-- What a read makes of the front of a text. -/
inductive Front (α : Type) where
  /-- Something was read; the rest of the text is left. -/
  | taken (a : α) (rest : List Char)
  /-- The front is nothing that can be read. -/
  | refused (front : List Char)
  /-- The text ends too early. -/
  | short
deriving Repr, DecidableEq

/-- A character needs one character. -/
def frontCharacter : List Char → Front Char
  | c :: rest => .taken c rest
  | [] => .short

/-- A number needs its digits and the delimiter after them. -/
def frontNumber (text : List Char) : Front Int :=
  match scanNumber text with
  | .complete digits rest => .taken (digitsValue digits) rest
  | .malformed front => .refused front
  | .unfinished => .short

namespace Front

variable {α β : Type}

def map (f : α → β) : Front α → Front β
  | .taken a rest => .taken (f a) rest
  | .refused front => .refused front
  | .short => .short

/-- The front when more text follows. -/
def append (more : List Char) : Front α → Front α
  | .taken a rest => .taken a (rest ++ more)
  | .refused front => .refused front
  | .short => .short

/-- What is read at the front of a text does not depend on what follows, unless the text is too short. -/
def Local (front : List Char → Front α) : Prop :=
  ∀ text more, front text ≠ .short → front (text ++ more) = (front text).append more

/-- What depends on the front alone still does when something else is made of it. -/
theorem Local.map {front : List Char → Front α} (local' : Local front) (f : α → β) :
    Local fun text => (front text).map f := by
  intro text more long
  have long' : front text ≠ .short := by
    intro short
    apply long
    change (front text).map f = .short
    rw [short]
    rfl
  change (front (text ++ more)).map f = ((front text).map f).append more
  rw [local' text more long']
  cases front text <;> rfl

end Front

theorem frontCharacter_local : Front.Local frontCharacter := by
  intro text more long
  cases text with
  | nil => exact absurd rfl long
  | cons c rest => rfl

/-- A number at the front of a text is ended by its delimiter, so that what follows does not matter. -/
theorem frontNumber_local : Front.Local frontNumber := by
  intro text more long
  unfold frontNumber scanNumber at long ⊢
  rw [List.dropWhile_append, List.takeWhile_append]
  cases dropped : text.dropWhile Char.isDigit with
  | nil => simp [dropped] at long
  | cons c rest =>
      -- Not all of the text is digits, so its digits are those of the longer text.
      have lengths := congrArg List.length (List.takeWhile_append_dropWhile (p := Char.isDigit) (l := text))
      rw [dropped, List.length_append, List.length_cons] at lengths
      have partial' : (text.takeWhile Char.isDigit).length ≠ text.length := by omega
      simp only [List.isEmpty_cons, Bool.false_eq_true, if_false, List.cons_append, partial']
      cases isDelimiter c <;> rfl

/-! ### Reads -/

/-- What a read of a port comes to when the text that is still to come has the front `front`. -/
inductive Reading {α : Type} (ended : Bool) (text : List Char) :
    Front α → Outcome α × Port → Prop where
  | value {a : α} {rest : List Char} {p : Port} : p.source.Steady ended → p.remaining = rest →
      Reading ended text (.taken a rest) (.value a, p)
  | malformed {front : List Char} {p : Port} :
      Reading ended text (.refused front) (.failed (.malformed (String.ofList front)), p)
  | exhausted {p : Port} : ended = true → p.source.Steady ended → p.remaining = text →
      Reading ended text .short (.failed .exhausted, p)
  | waiting {p : Port} : ended = false → p.source.Steady ended → p.source.isWaiting = true →
      p.remaining = text → Reading ended text .short (.waiting, p)

section

variable {p : Port} {ended : Bool}

/-- What asking a steady source for more text comes to. -/
inductive Refilling (ended : Bool) (p : Port) : Refill × Port → Prop where
  | filled {p' : Port} {text : List Char} : text ≠ [] → p'.buffer = p.buffer ++ text →
      p'.source.Steady ended → p'.remaining = p.remaining → Refilling ended p (.filled, p')
  | exhausted {p' : Port} : ended = true → p'.source.Steady ended → p'.remaining = p.remaining →
      p.remaining = p.buffer → Refilling ended p (.failed .exhausted, p')
  | waiting {p' : Port} : ended = false → p'.source.Steady ended → p'.source.isWaiting = true →
      p'.remaining = p.remaining → p.remaining = p.buffer → Refilling ended p (.waiting, p')

/-- A steady source has text, has ended, or makes the read wait, and in the last two cases the port keeps all
    that is still to come. -/
theorem refilling (steady : p.source.Steady ended) : Refilling ended p p.refill := by
  obtain ⟨steady', kept, closes, waits⟩ := steady.request
  have remaining := p.remaining_refill
  have moved := p.source.remaining_request
  have parked := Source.isWaiting_of_request (s := p.source)
  unfold Port.refill at remaining ⊢
  generalize p.source.request = request at *
  obtain ⟨reply, source⟩ := request
  cases reply with
  | cancelled => exact absurd rfl kept
  | waiting =>
      obtain ⟨nothing, open'⟩ := waits rfl
      refine .waiting open' steady' (parked rfl) remaining ?_
      simp only [Port.remaining, ← moved, nothing, Reply.text, String.toList_empty, List.append_nil]
  | batch text =>
      by_cases empty : text = ""
      · subst empty
        obtain ⟨nothing, closed⟩ := closes rfl
        simp only [if_true] at remaining ⊢
        refine .exhausted closed steady' remaining ?_
        simp only [Port.remaining, ← moved, nothing, Reply.text, String.toList_empty, List.append_nil]
      · simp only [empty, if_false] at remaining ⊢
        refine .filled ?_ rfl steady' remaining
        exact mt String.toList_eq_nil_iff.1 empty

/-- A character is read off the front of the text that is to come. -/
theorem reading_readCharacter (steady : p.source.Steady ended) :
    Reading ended p.remaining (frontCharacter p.remaining) p.readCharacter := by
  unfold Port.readCharacter
  cases buffered : p.buffer with
  | cons c rest =>
      have remaining : p.remaining = c :: (rest ++ p.source.remaining) := by
        rw [Port.remaining, buffered]
        rfl
      rw [remaining]
      exact .value steady rfl
  | nil =>
      have cases := refilling steady
      generalize p.refill = refilled at cases ⊢
      cases cases with
      | @filled p' text nonempty buffer steady' remaining =>
          rw [buffered, List.nil_append] at buffer
          obtain ⟨c, rest, rfl⟩ := List.exists_cons_of_ne_nil nonempty
          simp only [buffer]
          rw [← remaining, Port.remaining, buffer]
          exact .value steady' rfl
      | exhausted closed steady' remaining nothing =>
          rw [buffered] at nothing
          rw [nothing] at remaining ⊢
          exact .exhausted closed steady' remaining
      | waiting open' steady' parked remaining nothing =>
          rw [buffered] at nothing
          rw [nothing] at remaining ⊢
          exact .waiting open' steady' parked remaining

/-- What a port keeps is the front of the text that is to come. -/
theorem frontNumber_remaining (long : frontNumber p.buffer ≠ .short) :
    frontNumber p.remaining = (frontNumber p.buffer).append p.source.remaining :=
  frontNumber_local p.buffer p.source.remaining long

/-- A number is read off the front of the text that is to come. -/
theorem reading_readNumber (steady : p.source.Steady ended) :
    Reading ended p.remaining (frontNumber p.remaining) p.readNumber := by
  fun_induction Port.readNumber p with
  | case1 p digits rest scanned =>
      have front : frontNumber p.buffer = .taken (digitsValue digits) rest := by
        rw [frontNumber, scanned]
      rw [frontNumber_remaining (by simp [front]), front]
      exact .value steady rfl
  | case2 p text scanned =>
      have front : frontNumber p.buffer = .refused text := by
        rw [frontNumber, scanned]
      rw [frontNumber_remaining (by simp [front]), front]
      exact .malformed
  | case3 p scanned p' refilled =>
      have cases := refilling steady
      rw [refilled] at cases
      cases cases with
      | waiting open' steady' parked remaining nothing =>
          have front : frontNumber p.remaining = .short := by
            rw [nothing, frontNumber, scanned]
          rw [front]
          exact .waiting open' steady' parked remaining
  | case4 p scanned e p' refilled =>
      have cases := refilling steady
      rw [refilled] at cases
      cases cases with
      | exhausted closed steady' remaining nothing =>
          have front : frontNumber p.remaining = .short := by
            rw [nothing, frontNumber, scanned]
          rw [front]
          exact .exhausted closed steady' remaining
  | case5 p scanned p' refilled _ ih =>
      have cases := refilling steady
      rw [refilled] at cases
      cases cases with
      | filled nonempty buffer steady' remaining =>
          rw [← remaining]
          exact ih steady'

end

end Whitespace.Input

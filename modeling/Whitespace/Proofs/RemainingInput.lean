/-
Module: Whitespace.Proofs.RemainingInput
Purpose: The characters that are still to be read, wherever they are kept: in the buffer of the port, on
  their way to a read, or in the source. Asking for more text moves characters from one of these places
  to another, and a read that fails or has to wait has only asked for text, unless it has met text that
  is no number. What the feeding side does, but for calling the input off, adds characters at the end.
Main exports: Port.remaining, Port.remaining_refill, Port.Refilled, Port.refilled_of_readCharacter,
  Port.refilled_of_readNumber, Source.Orderly, Action, survivors, Port.act, Port.remaining_act
-/
import Mathlib.Data.List.Basic
import Whitespace.Input.Port

namespace Whitespace.Input

/-! ### Where characters are kept -/

def Waiter.sent : Waiter → String
  | .answered text => text
  | .absent | .parked | .revoked | .abandoned => ""

/-- What can still be read from a feed, as long as nothing more is fed. -/
def Feed.remaining (f : Feed) : List Char := f.waiter.sent.toList ++ f.pending.toList

def Source.remaining : Source → List Char
  | .text rest => (rest.getD "").toList
  | .batches rest => rest.flatMap String.toList
  | .feed f => f.remaining

def Port.remaining (p : Port) : List Char := p.buffer ++ p.source.remaining

/-- A read is parked only when there was nothing to give it and the input had not ended. -/
def Feed.Orderly (f : Feed) : Prop := f.waiter = .parked → f.pending = "" ∧ f.closed = false

/-- The feed of the source, if it has one, is orderly. -/
def Source.Orderly : Source → Prop
  | .feed f => f.Orderly
  | .text _ | .batches _ => True

theorem Source.orderly_of_not_isWaiting {s : Source} (h : s.isWaiting = false) : s.Orderly := by
  cases s with
  | feed f =>
      intro parked
      simp [isWaiting, Feed.isWaiting, parked] at h
  | text | batches => trivial

/-! ### Requests -/

def Reply.text : Reply → String
  | .batch text => text
  | .cancelled | .waiting => ""

/-- A feed hands over characters from the front and keeps the others. -/
theorem Feed.remaining_request (f : Feed) :
    f.request.1.text.toList ++ f.request.2.remaining = f.remaining := by
  obtain ⟨pending, closed, waiter⟩ := f
  cases waiter with
  | absent | abandoned =>
      by_cases empty : pending = ""
      · cases closed <;> simp [request, empty, Reply.text, remaining, Waiter.sent]
      · simp [request, empty, Reply.text, remaining, Waiter.sent]
  | _ => simp [request, Reply.text, remaining, Waiter.sent]

/-- An orderly feed stays so when a read asks for text. -/
theorem Feed.orderly_request {f : Feed} (h : f.Orderly) : f.request.2.Orderly := by
  obtain ⟨pending, closed, waiter⟩ := f
  cases waiter with
  | parked => exact h
  | answered text | revoked => exact nofun
  | absent | abandoned =>
      by_cases empty : pending = ""
      · cases closed with
        | true => simp [request, empty, Orderly]
        | false => exact fun _ => by simp [request, empty]
      · simp [request, empty, Orderly]

/-- A request that has to wait leaves the read parked. -/
theorem Feed.isWaiting_of_request {f : Feed} (h : f.request.1 = .waiting) :
    f.request.2.isWaiting = true := by
  obtain ⟨pending, closed, waiter⟩ := f
  cases waiter with
  | parked => rfl
  | answered text | revoked => cases h
  | absent | abandoned =>
      by_cases empty : pending = ""
      · cases closed with
        | true => simp [request, empty] at h
        | false => simp [request, empty, isWaiting]
      · simp [request, empty] at h

/-- A request hands over characters from the front and keeps the others. -/
theorem Source.remaining_request (s : Source) :
    s.request.1.text.toList ++ s.request.2.remaining = s.remaining := by
  cases s with
  | text rest => cases rest <;> simp [request, Reply.text, remaining]
  | batches rest => cases rest <;> simp [request, Reply.text, remaining]
  | feed f => exact f.remaining_request

theorem Source.orderly_request {s : Source} (h : s.Orderly) : s.request.2.Orderly := by
  cases s with
  | text rest => cases rest <;> trivial
  | batches rest => cases rest <;> trivial
  | feed f => exact Feed.orderly_request h

/-- Only a feed makes a read wait. -/
theorem Source.isWaiting_of_request {s : Source} (h : s.request.1 = .waiting) :
    s.request.2.isWaiting = true := by
  cases s with
  | text rest => cases rest <;> cases h
  | batches rest => cases rest <;> cases h
  | feed f => exact Feed.isWaiting_of_request h

theorem Source.exists_parked {s : Source} (h : s.isWaiting = true) :
    ∃ f : Feed, s = .feed f ∧ f.waiter = .parked := by
  cases s with
  | feed f => exact ⟨f, rfl, by simpa [isWaiting, Feed.isWaiting] using h⟩
  | text | batches => cases h

/-! ### Reads that take nothing -/

namespace Port

variable {p p' : Port}

theorem source_refill (p : Port) : p.refill.2.source = p.source.request.2 := by
  unfold refill
  cases p.source.request with
  | mk r source =>
      cases r with
      | batch text => by_cases empty : text = "" <;> simp [empty]
      | cancelled | waiting => rfl

/-- A port that asks for more text loses none. -/
theorem remaining_refill (p : Port) : p.refill.2.remaining = p.remaining := by
  have moved := p.source.remaining_request
  unfold refill
  cases reply : p.source.request with
  | mk r source =>
      rw [reply] at moved
      cases r with
      | batch text =>
          by_cases empty : text = ""
          · subst empty
            simpa [remaining, Reply.text] using moved
          · simp only [empty, if_false]
            simp only [remaining, ← moved, Reply.text, List.append_assoc]
      | cancelled | waiting => simpa [remaining, Reply.text] using moved

/-- A port that has to wait for text has a parked read. -/
theorem isWaiting_of_refill (h : p.refill = (.waiting, p')) : p'.source.isWaiting = true := by
  have source := p.source_refill
  rw [h] at source
  rw [source]
  apply Source.isWaiting_of_request
  unfold refill at h
  cases reply : p.source.request with
  | mk r source =>
      rw [reply] at h
      cases r with
      | batch text =>
          simp only at h
          split at h <;> cases h
      | cancelled => cases h
      | waiting => rfl

/-- One port becomes another by asking for text, any number of times. -/
inductive Refilled : Port → Port → Prop where
  | refl (p : Port) : Refilled p p
  | head {p p' : Port} : Refilled p.refill.2 p' → Refilled p p'

theorem Refilled.remaining_eq (h : p.Refilled p') : p'.remaining = p.remaining := by
  induction h with
  | refl => rfl
  | head _ ih => rw [ih, remaining_refill]

theorem Refilled.orderly (h : p.Refilled p') (orderly : p.source.Orderly) : p'.source.Orderly := by
  induction h with
  | refl => exact orderly
  | @head q _ _ ih =>
      apply ih
      rw [source_refill]
      exact Source.orderly_request orderly

/-- One refill, whose outcome is known. -/
theorem Refilled.of_refill {r : Refill} (h : p.refill = (r, p')) : p.Refilled p' := by
  have next : p.refill.2.Refilled p.refill.2 := .refl _
  rw [h] at next
  apply Refilled.head
  rw [h]
  exact next

/-- A read of a character that brings none has only asked for text. -/
theorem refilled_of_readCharacter {o : Outcome Char} (h : p.readCharacter = (o, p'))
    (none : ∀ c, o ≠ .value c) :
    p.Refilled p' ∧ (o = .waiting → p'.source.isWaiting = true) := by
  unfold readCharacter at h
  split at h
  · cases h
    exact absurd rfl (none _)
  · cases filled : p.refill with
    | mk r q =>
        have refilled := Refilled.of_refill filled
        rw [filled] at h
        cases r with
        | waiting =>
            cases h
            exact ⟨refilled, fun _ => isWaiting_of_refill filled⟩
        | failed e =>
            cases h
            exact ⟨refilled, nofun⟩
        | filled =>
            simp only at h
            split at h
            · cases h
              exact absurd rfl (none _)
            · cases h
              exact ⟨refilled, nofun⟩

/-- A read of a number that brings none has only asked for text, unless it has met text that is no
    number. -/
theorem refilled_of_readNumber {o : Outcome Int} (h : p.readNumber = (o, p'))
    (none : ∀ n, o ≠ .value n) (number : ∀ text, o ≠ .failed (.malformed text)) :
    p.Refilled p' ∧ (o = .waiting → p'.source.isWaiting = true) := by
  fun_induction readNumber p with
  | case1 p digits rest scanned =>
      cases h
      exact absurd rfl (none _)
  | case2 p text scanned =>
      cases h
      exact absurd rfl (number _)
  | case3 p scanned q filled =>
      cases h
      exact ⟨.of_refill filled, fun _ => isWaiting_of_refill filled⟩
  | case4 p scanned e q filled =>
      cases h
      exact ⟨.of_refill filled, nofun⟩
  | case5 p scanned q filled _ ih =>
      obtain ⟨refilled, waits⟩ := ih h
      refine ⟨.head ?_, waits⟩
      rw [filled]
      exact refilled

end Port

/-! ### The feeding side -/

/-- What the feeding side can do. -/
inductive Action where
  | feed (text : String)
  | close
  | cancel
deriving Repr, DecidableEq

def Action.text : Action → List Char
  | .feed text => text.toList
  | .close | .cancel => []

/-- The actions that are left of those taken while a read is parked, when the read is dropped after them: the
    text that wakes the read goes to the read and is dropped with it. -/
def survivors : List Action → List Action
  | [] => []
  | .feed text :: rest => if text = "" then .feed text :: survivors rest else rest
  | .close :: rest => .close :: rest
  | .cancel :: rest => .cancel :: rest

/-- Nothing is lost with a read to which no text is fed. -/
theorem survivors_of_silent {acts : List Action} (silent : ∀ a ∈ acts, a.text = []) :
    survivors acts = acts := by
  induction acts with
  | nil => rfl
  | cons a rest ih =>
      cases a with
      | close | cancel => rfl
      | feed text =>
          have empty : text = "" := String.toList_eq_nil_iff.1 (silent _ List.mem_cons_self)
          rw [survivors, if_pos empty, ih fun b member => silent b (List.mem_cons_of_mem _ member)]

def Feed.act (f : Feed) : Action → Feed
  | .feed text => f.feed text
  | .close => f.close
  | .cancel => f.cancel

def Port.act (p : Port) (a : Action) : Port :=
  { p with source := p.source.mapFeed (·.act a) }

namespace Feed

variable {f : Feed} {a : Action}

theorem orderly_act (h : f.Orderly) (a : Action) : (f.act a).Orderly := by
  obtain ⟨pending, closed, waiter⟩ := f
  cases a with
  | feed text =>
      by_cases empty : text = ""
      · simpa [act, feed, empty] using h
      · cases waiter <;> simp [act, feed, empty, Orderly]
  | close | cancel => cases waiter <;> exact nofun

/-- Whatever the feeding side does but for calling the input off adds its text at the end. -/
theorem remaining_act (h : f.Orderly) (kept : a ≠ .cancel) :
    (f.act a).remaining = f.remaining ++ a.text := by
  obtain ⟨pending, closed, waiter⟩ := f
  cases a with
  | feed text =>
      by_cases empty : text = ""
      · simp [act, feed, empty, Action.text]
      · cases waiter with
        | parked =>
            obtain ⟨rfl, -⟩ := h rfl
            simp [act, feed, empty, remaining, Waiter.sent, Action.text]
        | _ => simp [act, feed, empty, remaining, Waiter.sent, Action.text]
  | close => cases waiter <;> simp [act, close, remaining, Waiter.sent, Action.text]
  | cancel => exact absurd rfl kept

/-- What is supplied while a read waits is on its way to it, and to no other read. -/
theorem sent_act (f : Feed) (a : Action) :
    (f.act a).waiter.sent.toList = if f.isWaiting then a.text else f.waiter.sent.toList := by
  obtain ⟨pending, closed, waiter⟩ := f
  cases a with
  | feed text =>
      by_cases empty : text = ""
      · cases waiter <;> simp [act, feed, empty, isWaiting, Waiter.sent, Action.text]
      · cases waiter <;> simp [act, feed, empty, isWaiting, Waiter.sent, Action.text]
  | close | cancel => cases waiter <;> rfl

/-- Without text to supply, the feeding side puts none on its way to a read. -/
theorem sent_act_of_silent (nothing : f.waiter.sent = "") (silent : a.text = []) :
    (f.act a).waiter.sent = "" := by
  apply String.toList_eq_nil_iff.1
  rw [sent_act, silent, nothing]
  exact ite_self []

/-- What is supplied while a read waits is not there any more once the read has been dropped. -/
theorem remaining_abandon_act (orderly : f.Orderly) (kept : a ≠ .cancel) :
    (f.act a).abandon.remaining = f.abandon.remaining ++ if f.isWaiting then [] else a.text := by
  obtain ⟨pending, closed, waiter⟩ := f
  cases a with
  | feed text =>
      by_cases empty : text = ""
      · cases waiter <;> simp [act, feed, empty, isWaiting, Action.text]
      · cases waiter <;> simp [act, feed, empty, isWaiting, abandon, remaining, Waiter.sent, Action.text]
  | close => cases waiter <;> simp [act, close, abandon, remaining, Waiter.sent, Action.text]
  | cancel => exact absurd rfl kept

/-- A read that is dropped takes nothing with it unless text was on its way to it. -/
theorem remaining_abandon (nothing : f.waiter.sent = "") : f.abandon.remaining = f.remaining := by
  obtain ⟨pending, closed, waiter⟩ := f
  cases waiter with
  | answered text =>
      obtain rfl : text = "" := nothing
      rfl
  | _ => rfl

end Feed

namespace Port

variable {p : Port} {a : Action}

theorem orderly_act (h : p.source.Orderly) (a : Action) : (p.act a).source.Orderly := by
  obtain ⟨source, buffer⟩ := p
  cases source with
  | feed f => exact Feed.orderly_act h a
  | text | batches => trivial

theorem remaining_act {f : Feed} (h : p.source.Orderly) (fed : p.source = .feed f) (kept : a ≠ .cancel) :
    (p.act a).remaining = p.remaining ++ a.text := by
  obtain ⟨source, buffer⟩ := p
  subst fed
  simp [act, remaining, Source.mapFeed, Source.remaining, Feed.remaining_act h kept]

theorem source_act {f : Feed} (fed : p.source = .feed f) (a : Action) :
    (p.act a).source = .feed (f.act a) := by
  simp only [act, fed, Source.mapFeed]

theorem remaining_abandon {f : Feed} (fed : p.source = .feed f) (nothing : f.waiter.sent = "") :
    p.abandon.remaining = p.remaining := by
  obtain ⟨source, buffer⟩ := p
  subst fed
  exact congrArg (buffer ++ ·) (Feed.remaining_abandon nothing)

end Port

end Whitespace.Input

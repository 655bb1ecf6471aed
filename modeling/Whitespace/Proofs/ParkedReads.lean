/-
Module: Whitespace.Proofs.ParkedReads
Purpose: No read sleeps while there is something to wake it. The feeding side sees a read waiting exactly
  when the latest poll of the read under way has left it waiting and nothing has been done since to wake or
  to drop it; then no text is kept back and the input is open. Whatever is done to wake the read, its next
  poll either ends it or takes the text in.
Main exports: Since, since_iff, Feed.Move, Feed.isWaiting_iff_asleep, Port.Free, Port.Serves,
  Port.Serves.read, Port.read_lacking, Reader.Linked, Reader.isWaiting_iff_asleep, Woken,
  no_read_sleeps
-/
import Mathlib.Data.List.Induction
import Whitespace.Proofs.Readers

namespace Whitespace.Input

/-! ### What has begun and lasts -/

section

variable {σ ε : Type} {after : σ → ε → σ} {begins : σ → ε → Prop} {keeps : ε → Bool} {start : σ}
  {events : List ε} {e : ε}

/-- Among the events is one that begins something, and all later ones let it last. -/
def Since (after : σ → ε → σ) (begins : σ → ε → Prop) (keeps : ε → Bool) (start : σ)
    (events : List ε) : Prop :=
  ∃ before e later, events = before ++ e :: later ∧ begins (before.foldl after start) e ∧
    ∀ e' ∈ later, keeps e' = true

theorem not_since_nil : ¬ Since after begins keeps start [] := by
  rintro ⟨before, e, later, none, -⟩
  cases before <;> cases none

/-- After one more event, the thing has begun with it, or has lasted through it. -/
theorem since_concat :
    Since after begins keeps start (events ++ [e]) ↔
      begins (events.foldl after start) e ∨
        Since after begins keeps start events ∧ keeps e = true := by
  constructor
  · rintro ⟨before, first, later, cut, began, lasts⟩
    rcases List.eq_nil_or_concat later with rfl | ⟨later', last, rfl⟩
    · obtain ⟨rfl, rfl⟩ := List.append_singleton_inj.1 cut
      exact .inl began
    · rw [List.concat_eq_append, ← List.cons_append, ← List.append_assoc] at cut
      obtain ⟨rfl, rfl⟩ := List.append_singleton_inj.1 cut
      rw [List.concat_eq_append, List.forall_mem_append] at lasts
      refine .inr ⟨⟨before, first, later', rfl, began, lasts.1⟩, ?_⟩
      exact lasts.2 e (List.mem_singleton_self e)
  · rintro (began | ⟨⟨before, first, later, rfl, began, lasts⟩, kept⟩)
    · exact ⟨events, e, [], rfl, began, nofun⟩
    · refine ⟨before, first, later ++ [e], ?_, began, ?_⟩
      · rw [List.append_assoc, List.cons_append]
      · rw [List.forall_mem_append]
        refine ⟨lasts, ?_⟩
        intro e' member
        rw [List.mem_singleton.1 member]
        exact kept

/-- What events begin and let last holds exactly since an event that has begun it. Only states of which the
    invariant `I` holds are met. -/
theorem since_iff {I P : σ → Prop} (initial : I start) (none : ¬ P start)
    (invariant : ∀ s e, I s → I (after s e))
    (changes : ∀ s e, I s → (P (after s e) ↔ begins s e ∨ P s ∧ keeps e = true)) (events : List ε) :
    I (events.foldl after start) ∧
      (P (events.foldl after start) ↔ Since after begins keeps start events) := by
  induction events using List.reverseRecOn with
  | nil => exact ⟨initial, iff_of_false none not_since_nil⟩
  | append_singleton events e ih =>
      rw [List.foldl_append, List.foldl_cons, List.foldl_nil]
      refine ⟨invariant _ e ih.1, ?_⟩
      rw [changes _ e ih.1, ih.2, since_concat]

end

/-! ### Feeds -/

/-- Does the action reach a read that is parked? -/
def Action.wakes : Action → Bool
  | .feed text => text ≠ ""
  | .close | .cancel => true

/-- The reply that a parked read gets once an action has woken it. -/
def Action.reply : Action → Reply
  | .feed text => .batch text
  | .close => .batch ""
  | .cancel => .cancelled

namespace Feed

/-- Is a read linked to the feed? It has asked and been told to wait, and since then it has neither asked
    again nor been dropped. -/
def isAttended (f : Feed) : Bool :=
  match f.waiter with
  | .parked | .answered _ | .revoked => true
  | .absent | .abandoned => false

/-- What can happen to a feed. A read that waits asks again when it is polled. -/
inductive Move where
  | ask
  /-- The read that asked last is dropped. -/
  | leave
  | act (a : Action)
deriving Repr, DecidableEq

def after (f : Feed) : Move → Feed
  | .ask => f.request.2
  | .leave => f.abandon
  | .act a => f.act a

/-- Does a read that waits go on to wait? -/
def Move.keepsAsleep : Move → Bool
  | .ask => true
  | .leave => false
  | .act a => !a.wakes

/-- A read has asked and been told to wait, and since then it was neither dropped nor woken. -/
def Asleep (moves : List Move) : Prop :=
  Since after (fun f move => move = .ask ∧ f.request.1 = .waiting) Move.keepsAsleep {} moves

variable {f : Feed} {a : Action}

theorem isAttended_of_isWaiting (waiting : f.isWaiting = true) : f.isAttended = true := by
  have parked : f.waiter = .parked := of_decide_eq_true waiting
  unfold isAttended
  rw [parked]

/-- A read that asks stays linked to the feed exactly when it has to wait. -/
theorem isAttended_request (f : Feed) : f.request.2.isAttended = true ↔ f.request.1 = .waiting := by
  obtain ⟨pending, closed, waiter⟩ := f
  cases waiter with
  | parked | answered | revoked => simp [request, isAttended]
  | absent | abandoned =>
      by_cases empty : pending = ""
      · cases closed <;> simp [request, empty, isAttended]
      · simp [request, empty, isAttended]

theorem isAttended_abandon (f : Feed) : f.abandon.isAttended = false := by
  obtain ⟨pending, closed, waiter⟩ := f
  cases waiter <;> rfl

/-- The feeding side neither links a read to the feed nor cuts its link. -/
theorem isAttended_act (f : Feed) (a : Action) : (f.act a).isAttended = f.isAttended := by
  obtain ⟨pending, closed, waiter⟩ := f
  cases a with
  | feed text =>
      by_cases empty : text = ""
      · simp [act, feed, empty]
      · cases waiter <;> simp [act, feed, empty, isAttended]
  | close | cancel => cases waiter <;> rfl

theorem isWaiting_act (f : Feed) (a : Action) :
    (f.act a).isWaiting = true ↔ f.isWaiting = true ∧ (!a.wakes) = true := by
  obtain ⟨pending, closed, waiter⟩ := f
  cases a with
  | feed text =>
      by_cases empty : text = ""
      · simp [act, feed, empty, Action.wakes]
      · cases waiter <;> simp [act, feed, empty, isWaiting, Action.wakes]
  | close | cancel => cases waiter <;> simp [act, close, cancel, isWaiting, Action.wakes]

theorem request_of_isWaiting (waiting : f.isWaiting = true) : f.request = (.waiting, f) := by
  have parked : f.waiter = .parked := of_decide_eq_true waiting
  unfold request
  rw [parked]

theorem isWaiting_request (f : Feed) : f.request.2.isWaiting = true ↔ f.request.1 = .waiting := by
  constructor
  · intro waiting
    exact (isAttended_request f).1 (isAttended_of_isWaiting waiting)
  · exact isWaiting_of_request

theorem not_isWaiting_of_not_isAttended (free : f.isAttended = false) : f.isWaiting = false := by
  apply eq_false_of_ne_true
  intro waiting
  rw [isAttended_of_isWaiting waiting] at free
  cases free

/-- A move puts a read to sleep, or it lets a sleeping read sleep on. -/
theorem isWaiting_after (f : Feed) (move : Move) :
    (f.after move).isWaiting = true ↔
      (move = .ask ∧ f.request.1 = .waiting) ∨ f.isWaiting = true ∧ move.keepsAsleep = true := by
  cases move with
  | ask =>
      simp only [after, isWaiting_request, Move.keepsAsleep, true_and, and_true]
      refine ⟨.inl, ?_⟩
      rintro (waits | waiting)
      · exact waits
      · rw [request_of_isWaiting waiting]
  | leave =>
      simp only [after, not_isWaiting_of_not_isAttended f.isAttended_abandon, Move.keepsAsleep]
      simp
  | act a =>
      simp only [after, isWaiting_act, Move.keepsAsleep]
      simp

theorem orderly_after (orderly : f.Orderly) (move : Move) : (f.after move).Orderly := by
  cases move with
  | ask => exact orderly_request orderly
  | leave => exact f.orderly_abandon
  | act a => exact orderly_act orderly a

/-- The waiter shows whether a read sleeps, and while one sleeps there is nothing to wake it. -/
theorem isWaiting_iff_asleep (moves : List Move) :
    (moves.foldl after {} : Feed).Orderly ∧
      ((moves.foldl after {} : Feed).isWaiting = true ↔ Asleep moves) := by
  have initial : Orderly {} := nofun
  have awake : ¬ (({} : Feed).isWaiting = true) := nofun
  apply since_iff (P := fun f : Feed => f.isWaiting = true) initial awake
  · intro f move orderly
    exact orderly_after orderly move
  · intro f move _
    exact f.isWaiting_after move

/-! ### Waking -/

/-- The waiter of a read that has been woken. -/
inductive Answers : Action → Waiter → Prop where
  | feed (text : String) : Answers (.feed text) (.answered text)
  | close : Answers .close (.answered "")
  | cancel : Answers .cancel .revoked

/-- An action that wakes a read leaves its answer for the read. -/
theorem answers_act (waiting : f.isWaiting = true) (wakes : a.wakes = true) :
    Answers a (f.act a).waiter := by
  obtain ⟨pending, closed, waiter⟩ := f
  obtain rfl : waiter = .parked := of_decide_eq_true waiting
  cases a with
  | feed text =>
      have nonempty : text ≠ "" := of_decide_eq_true wakes
      simp only [act, feed, nonempty, if_false]
      exact .feed text
  | close => exact .close
  | cancel => exact .cancel

/-- The answer to a read that has been woken stands. -/
theorem Answers.act (answers : Answers a f.waiter) (later : Action) : Answers a (f.act later).waiter := by
  have kept : (f.act later).waiter = f.waiter := by
    obtain ⟨pending, closed, waiter⟩ := f
    cases later with
    | feed text =>
        by_cases empty : text = ""
        · simp only [Feed.act, Feed.feed, empty, if_true]
        · cases answers <;> simp only [Feed.act, Feed.feed, empty, if_false]
    | close | cancel => cases answers <;> rfl
  rw [kept]
  exact answers

theorem Answers.foldl_act (answers : Answers a f.waiter) (later : List Action) :
    Answers a (later.foldl Feed.act f).waiter := by
  induction later generalizing f with
  | nil => exact answers
  | cons b rest ih => exact ih (answers.act b)

/-- A read that was woken gets its reply when it asks again, whatever has been done meanwhile. -/
theorem Answers.request (answers : Answers a f.waiter) : f.request.1 = a.reply := by
  obtain ⟨pending, closed, waiter⟩ := f
  cases answers <;> rfl

/-- Whatever wakes a read, the read gets the reply to it. -/
theorem request_of_wakes (waiting : f.isWaiting = true) (wakes : a.wakes = true) (later : List Action) :
    ((a :: later).foldl Feed.act f).request.1 = a.reply :=
  ((answers_act waiting wakes).foldl_act later).request

end Feed

/-! ### Ports -/

/-- The text is too short for a read of the kind. -/
def ReadKind.Lacks : ReadKind → List Char → Prop
  | .character, text => text = []
  | .number, text => scanNumber text = .unfinished

namespace Port

/-- The source is a feed to which no read is linked. -/
def Free (p : Port) : Prop := ∃ f, p.source = .feed f ∧ f.isAttended = false

/-- The source is a feed, and if a read is linked to it, what the port keeps is too short for a read of the
    kind. -/
def Serves (kind : ReadKind) (p : Port) : Prop :=
  ∃ f, p.source = .feed f ∧ (f.isAttended = true → kind.Lacks p.buffer)

variable {p q : Port} {kind : ReadKind}

theorem Free.serves (free : p.Free) (kind : ReadKind) : p.Serves kind := by
  obtain ⟨f, source, unattended⟩ := free
  refine ⟨f, source, ?_⟩
  rw [unattended]
  nofun

theorem Free.not_isWaiting (free : p.Free) : p.source.isWaiting = false := by
  obtain ⟨f, source, unattended⟩ := free
  rw [source]
  exact Feed.not_isWaiting_of_not_isAttended unattended

theorem Serves.fed (serves : p.Serves kind) : p.Fed := by
  obtain ⟨f, source, -⟩ := serves
  exact ⟨f, source⟩

theorem Serves.lacks (serves : p.Serves kind) (waiting : p.source.isWaiting = true) :
    kind.Lacks p.buffer := by
  obtain ⟨f, source, lacks⟩ := serves
  rw [source] at waiting
  exact lacks (Feed.isAttended_of_isWaiting waiting)

theorem Serves.free_of_not_lacks (serves : p.Serves kind) (enough : ¬ kind.Lacks p.buffer) : p.Free := by
  obtain ⟨f, source, lacks⟩ := serves
  exact ⟨f, source, eq_false_of_ne_true (mt lacks enough)⟩

theorem Free.of_source (free : p.Free) (same : q.source = p.source) : q.Free := by
  obtain ⟨f, source, unattended⟩ := free
  exact ⟨f, same.trans source, unattended⟩

theorem free_abandon (fed : p.Fed) : p.abandon.Free := by
  obtain ⟨f, source⟩ := fed
  refine ⟨f.abandon, ?_, f.isAttended_abandon⟩
  simp only [abandon, source, Source.mapFeed]

theorem Free.act (free : p.Free) (a : Action) : (p.act a).Free := by
  obtain ⟨f, source, unattended⟩ := free
  exact ⟨f.act a, source_act source a, (f.isAttended_act a).trans unattended⟩

theorem Serves.act (serves : p.Serves kind) (a : Action) : (p.act a).Serves kind := by
  obtain ⟨f, source, lacks⟩ := serves
  refine ⟨f.act a, source_act source a, ?_⟩
  rw [f.isAttended_act a]
  exact lacks

theorem isWaiting_act (fed : p.Fed) (a : Action) :
    (p.act a).source.isWaiting = true ↔ p.source.isWaiting = true ∧ (!a.wakes) = true := by
  obtain ⟨f, source⟩ := fed
  rw [source_act source, source]
  exact f.isWaiting_act a

theorem source_foldl_act {f : Feed} (source : p.source = .feed f) (acts : List Action) :
    (acts.foldl Port.act p).source = .feed (acts.foldl Feed.act f) := by
  induction acts generalizing p f with
  | nil => exact source
  | cons a rest ih => exact ih (source_act source a)

theorem buffer_foldl_act (p : Port) (acts : List Action) : (acts.foldl Port.act p).buffer = p.buffer := by
  induction acts generalizing p with
  | nil => rfl
  | cons a rest ih => exact ih (p.act a)

/-- What asking a feed for more text comes to. -/
inductive Refills (p : Port) : Reply → Refill × Port → Prop where
  | filled {text : String} {q : Port} : text ≠ "" → q.buffer = p.buffer ++ text.toList → q.Free →
      Refills p (.batch text) (.filled, q)
  | exhausted {q : Port} : q.Free → Refills p (.batch "") (.failed .exhausted, q)
  | cancelled {q : Port} : q.Free → Refills p .cancelled (.failed .cancelled, q)
  | waiting {q : Port} : q.buffer = p.buffer → q.Fed → q.source.isWaiting = true →
      Refills p .waiting (.waiting, q)

/-- What asking for more text comes to depends on the reply of the feed alone. -/
theorem refills {f : Feed} (source : p.source = .feed f) : Refills p f.request.1 p.refill := by
  have attended := f.isAttended_request
  have parked := f.isWaiting_request
  unfold refill
  rw [source, Source.request]
  generalize f.request = r at attended parked ⊢
  obtain ⟨reply, f'⟩ := r
  have free (answered : reply ≠ .waiting) : f'.isAttended = false :=
    eq_false_of_ne_true (mt attended.1 answered)
  cases reply with
  | waiting => exact .waiting rfl ⟨f', rfl⟩ (parked.2 rfl)
  | cancelled => exact .cancelled ⟨f', rfl, free (by simp)⟩
  | batch text =>
      by_cases empty : text = ""
      · subst empty
        exact .exhausted ⟨f', rfl, free (by simp)⟩
      · simp only [empty, if_false]
        exact .filled empty rfl ⟨f', rfl, free (by simp)⟩

/-- A port that was filled has at least one more character in its buffer. -/
theorem buffer_of_refill (refilled : p.refill = (.filled, q)) :
    ∃ text, text ≠ [] ∧ q.buffer = p.buffer ++ text := by
  unfold refill at refilled
  split at refilled
  · cases refilled
  · cases refilled
  · next text source _ =>
      split at refilled
      · cases refilled
      · next nonempty =>
          cases refilled
          exact ⟨text.toList, mt String.toList_eq_nil_iff.1 nonempty, rfl⟩

/-- A read for which the text is too short asks for more. -/
theorem read_lacking (lacks : kind.Lacks p.buffer) :
    p.read kind =
      match p.refill with
      | (.waiting, q) => (.waiting, q)
      | (.failed e, q) => (.failed e, q)
      | (.filled, q) => q.read kind := by
  cases kind with
  | number =>
      have scanned : scanNumber p.buffer = .unfinished := lacks
      unfold read
      simp only
      rw [readNumber]
      split
      · next digits rest other =>
          rw [scanned] at other
          cases other
      · next text other =>
          rw [scanned] at other
          cases other
      · split <;> next refilled => simp only [refilled]
  | character =>
      have empty : p.buffer = [] := lacks
      unfold read
      simp only
      conv_lhs => unfold readCharacter
      simp only [empty]
      rcases refilled : p.refill with ⟨r, q⟩
      cases r with
      | waiting | failed => rfl
      | filled =>
          -- Any batch is enough for a character, so a read that starts over takes the same one.
          obtain ⟨text, nonempty, buffer⟩ := buffer_of_refill refilled
          obtain ⟨c, rest, rfl⟩ := List.exists_cons_of_ne_nil nonempty
          rw [empty, List.nil_append] at buffer
          unfold readCharacter
          simp only [buffer]

/-- A read for which the text is long enough asks for none and does not wait. -/
theorem read_not_lacking (enough : ¬ kind.Lacks p.buffer) :
    (p.read kind).1 ≠ .waiting ∧ (p.read kind).2.source = p.source := by
  cases kind with
  | number =>
      unfold read
      simp only
      rw [readNumber]
      split
      · exact ⟨by simp, rfl⟩
      · exact ⟨by simp, rfl⟩
      · next scanned => exact absurd scanned enough
  | character =>
      obtain ⟨c, rest, buffered⟩ := List.exists_cons_of_ne_nil enough
      unfold read readCharacter
      simp only [buffered]
      exact ⟨by simp [Machine.codePoint], rfl⟩

/-- How polling a read ends: with the read, whose link to the feed is cut, or with the read asleep, what the
    port has kept being still too short for it. -/
inductive Polled (kind : ReadKind) (kept : List Char) : Outcome Int × Port → Prop where
  | ended {o : Outcome Int} {q : Port} : o ≠ .waiting → q.Free → Polled kind kept (o, q)
  | asleep {q : Port} : q.source.isWaiting = true → q.Fed → kept <+: q.buffer →
      kind.Lacks q.buffer → Polled kind kept (.waiting, q)

/-- Polling a read ends it and cuts its link, or leaves it asleep with too little text. -/
theorem Serves.polled (serves : p.Serves kind) : Polled kind p.buffer (p.read kind) := by
  -- Every batch that the read takes in leaves fewer of them to come.
  generalize supply : p.source.supply = n
  induction n using Nat.strong_induction_on generalizing p with
  | _ n ih =>
      by_cases lacks : kind.Lacks p.buffer
      · obtain ⟨f, source⟩ := serves.fed
        have refills := refills source
        rw [read_lacking lacks]
        rcases refilled : p.refill with ⟨r, q⟩
        rw [refilled] at refills
        generalize f.request.1 = reply at refills
        cases refills with
        | waiting buffer fed waiting =>
            rw [← buffer] at lacks
            have kept : p.buffer <+: q.buffer := ⟨[], by rw [List.append_nil, buffer]⟩
            exact .asleep waiting fed kept lacks
        | exhausted free => exact .ended nofun free
        | cancelled free => exact .ended nofun free
        | filled nonempty buffer free =>
            have fewer := supply_refill refilled
            rw [supply] at fewer
            have polled := ih q.source.supply fewer (free.serves kind) rfl
            simp only
            generalize q.read kind = result at polled
            cases polled with
            | ended done free => exact .ended done free
            | asleep waiting fed extends' lacks =>
                refine .asleep waiting fed ?_ lacks
                rw [buffer] at extends'
                exact (List.prefix_append _ _).trans extends'
      · obtain ⟨done, source⟩ := read_not_lacking lacks
        exact .ended done ((serves.free_of_not_lacks lacks).of_source source)

/-- A read that sleeps goes on to wait when it is polled. -/
theorem read_of_isWaiting (fed : p.Fed) (waiting : p.source.isWaiting = true)
    (lacks : kind.Lacks p.buffer) : (p.read kind).1 = .waiting := by
  obtain ⟨f, source⟩ := fed
  have refills := refills source
  rw [source] at waiting
  rw [Feed.request_of_isWaiting waiting] at refills
  rw [read_lacking lacks]
  generalize p.refill = refilled at refills
  cases refills
  rfl

end Port

/-! ### Readers -/

/-- What an action that wakes a read brings to its next poll: the read fails because the input has ended or
    was called off, or it takes the text in and waits only if it needs still more. -/
def Woken (kind : ReadKind) (kept : List Char) : Action → Outcome Int × Port → Prop
  | .feed text, (o, p) => o = .waiting → kept ++ text.toList <+: p.buffer ∧ kind.Lacks p.buffer
  | .close, (o, _) => o = .failed .exhausted
  | .cancel, (o, _) => o = .failed .cancelled

/-- A read that an action has woken notices it when it is polled next. -/
theorem woken_read {p : Port} {kind : ReadKind} {a : Action} (serves : p.Serves kind)
    (waiting : p.source.isWaiting = true) (wakes : a.wakes = true) (later : List Action) :
    Woken kind p.buffer a (((a :: later).foldl Port.act p).read kind) := by
  have lacks := serves.lacks waiting
  obtain ⟨f, source⟩ := serves.fed
  rw [source] at waiting
  have source' := Port.source_foldl_act source (a :: later)
  have buffer' := p.buffer_foldl_act (a :: later)
  generalize (a :: later).foldl Port.act p = q at source' buffer' ⊢
  have refills := Port.refills source'
  rw [Feed.request_of_wakes waiting wakes] at refills
  rw [Port.read_lacking (by rw [buffer']; exact lacks)]
  generalize q.refill = refilled at refills
  cases a with
  | close =>
      cases refills with
      | exhausted => rfl
      | filled nonempty => exact absurd rfl nonempty
  | cancel =>
      cases refills
      rfl
  | feed text =>
      cases refills with
      | exhausted => cases wakes
      | @filled _ q' nonempty buffer free =>
          have polled := (free.serves kind).polled
          simp only
          generalize q'.read kind = result at polled ⊢
          cases polled with
          | ended done => exact fun waits => absurd waits done
          | asleep _ _ extends' lacks =>
              intro _
              rw [buffer, buffer'] at extends'
              exact ⟨extends', lacks⟩

namespace Reader

def Waits (r : Reader) : Prop := ∃ kind, r.kind? = some kind ∧ (r.port.read kind).1 = .waiting

/-- Does a read that waits go on to wait? It is under way, so that no other can be started. -/
def Event.keepsAsleep : Event → Bool
  | .start _ | .poll => true
  | .drop => false
  | .act a => !a.wakes

/-- The latest poll to leave the read under way waiting has been followed by nothing that drops the read or
    wakes it. -/
def Asleep (events : List Event) : Prop :=
  Since after (fun r e => e = .poll ∧ r.Waits) Event.keepsAsleep fresh events

/-- A read is linked to the feed only if it is the one under way and needs more text than the port keeps. -/
structure Linked (r : Reader) : Prop where
  orderly : r.port.source.Orderly
  serves : ∀ kind, r.kind? = some kind → r.port.Serves kind
  free : r.kind? = none → r.port.Free

variable {r : Reader} {e : Event}

theorem Linked.fed (linked : r.Linked) : r.port.Fed := by
  cases kind? : r.kind? with
  | none =>
      obtain ⟨f, source, -⟩ := linked.free kind?
      exact ⟨f, source⟩
  | some kind => exact (linked.serves kind kind?).fed

/-- Only the read under way can sleep. -/
theorem Linked.exists_kind (linked : r.Linked) (waiting : r.port.source.isWaiting = true) :
    ∃ kind, r.kind? = some kind := by
  cases kind? : r.kind? with
  | some kind => exact ⟨kind, rfl⟩
  | none =>
      rw [(linked.free kind?).not_isWaiting] at waiting
      cases waiting

/-- After a poll, a read is linked to the feed only if it waits; and the feeding side sees a read waiting
    exactly if the poll has left one waiting. -/
theorem Linked.poll (linked : r.Linked) :
    (r.after .poll).Linked ∧ ((r.after .poll).port.source.isWaiting = true ↔ r.Waits) := by
  cases kind? : r.kind? with
  | none =>
      have idle : r.after .poll = r := by
        unfold after
        rw [kind?]
      rw [idle]
      refine ⟨linked, ?_⟩
      rw [(linked.free kind?).not_isWaiting]
      apply iff_of_false nofun
      rintro ⟨kind, other, -⟩
      rw [kind?] at other
      cases other
  | some kind =>
      have waits : r.Waits ↔ (r.port.read kind).1 = .waiting := by
        constructor
        · rintro ⟨kind', same, waits⟩
          obtain rfl := Option.some.inj (kind?.symm.trans same)
          exact waits
        · exact fun waits => ⟨kind, kind?, waits⟩
      have polled := (linked.serves kind kind?).polled
      rw [waits]
      unfold after
      simp only [kind?]
      rcases read : r.port.read kind with ⟨o, q⟩
      rw [read] at polled
      cases polled with
      | asleep waiting fed _ lacks =>
          have orderly := (refilled_of_read read nofun nofun).orderly linked.orderly
          obtain ⟨f, source⟩ := fed
          refine ⟨⟨orderly, ?_, nofun⟩, iff_of_true waiting rfl⟩
          intro kind' same
          cases same
          exact ⟨f, source, fun _ => lacks⟩
      | ended done free =>
          have orderly := Source.orderly_of_not_isWaiting free.not_isWaiting
          have awake : ¬ q.source.isWaiting = true := by
            rw [free.not_isWaiting]
            nofun
          cases o with
          | waiting => exact absurd rfl done
          | value | failed => exact ⟨⟨orderly, nofun, fun _ => free⟩, iff_of_false awake nofun⟩

/-- A read that is started is not linked to the feed before it is polled. -/
theorem Linked.start (linked : r.Linked) (kind : ReadKind) :
    (r.after (.start kind)).Linked ∧ (r.after (.start kind)).port = r.port := by
  unfold Reader.after
  cases kind? : r.kind? with
  | some _ => exact ⟨linked, rfl⟩
  | none =>
      refine ⟨⟨linked.orderly, ?_, nofun⟩, rfl⟩
      intro kind' _
      exact (linked.free kind?).serves kind'

/-- After a drop no read is linked to the feed. -/
theorem Linked.drop (linked : r.Linked) :
    (r.after .drop).Linked ∧ (r.after .drop).port.source.isWaiting = false := by
  unfold Reader.after
  cases kind? : r.kind? with
  | none => exact ⟨linked, (linked.free kind?).not_isWaiting⟩
  | some kind =>
      have free := Port.free_abandon linked.fed
      have awake := free.not_isWaiting
      exact ⟨⟨Source.orderly_of_not_isWaiting awake, nofun, fun _ => free⟩, awake⟩

/-- What an event does to the link, and what it does to a read that sleeps or is about to. -/
theorem Linked.after (linked : r.Linked) (e : Event) :
    (r.after e).Linked ∧
      ((r.after e).port.source.isWaiting = true ↔
        (e = .poll ∧ r.Waits) ∨ r.port.source.isWaiting = true ∧ e.keepsAsleep = true) := by
  cases e with
  | start kind =>
      obtain ⟨linked', port⟩ := linked.start kind
      refine ⟨linked', ?_⟩
      rw [port]
      simp [Event.keepsAsleep]
  | poll =>
      obtain ⟨linked', waiting⟩ := linked.poll
      refine ⟨linked', ?_⟩
      rw [waiting]
      simp only [true_and, Event.keepsAsleep, and_true]
      refine ⟨.inl, ?_⟩
      rintro (waits | sleeps)
      · exact waits
      · obtain ⟨kind, kind?⟩ := linked.exists_kind sleeps
        have lacks := (linked.serves kind kind?).lacks sleeps
        exact ⟨kind, kind?, Port.read_of_isWaiting linked.fed sleeps lacks⟩
  | drop =>
      obtain ⟨linked', awake⟩ := linked.drop
      refine ⟨linked', ?_⟩
      rw [awake]
      simp [Event.keepsAsleep]
  | act a =>
      have waiting := Port.isWaiting_act linked.fed a
      refine ⟨⟨Port.orderly_act linked.orderly a, ?_, ?_⟩, ?_⟩
      · intro kind kind?
        exact (linked.serves kind kind?).act a
      · intro kind?
        exact (linked.free kind?).act a
      · simp only [reduceCtorEq, false_and, false_or]
        exact waiting

theorem linked_fresh : fresh.Linked :=
  ⟨nofun, nofun, fun _ => ⟨{}, rfl, rfl⟩⟩

/-- The waiter shows whether the read under way sleeps, whatever has happened before. -/
theorem isWaiting_iff_asleep (events : List Event) :
    (fresh.follow events).Linked ∧
      ((fresh.follow events).port.source.isWaiting = true ↔ Asleep events) := by
  have awake : ¬ fresh.port.source.isWaiting = true := nofun
  apply since_iff (P := fun r : Reader => r.port.source.isWaiting = true) linked_fresh awake
  · intro r e linked
    exact (linked.after e).1
  · intro r e linked
    exact (linked.after e).2

end Reader

/-! ### No read sleeps -/

/-- No read sleeps while there is something for it. Over a feed by itself and over a port, the feeding side
    sees a read waiting exactly if one has been told to wait and was neither woken nor dropped since. Then no
    text is kept back and the input is open; and whenever text is fed, or the input is closed or called off,
    the read gets its reply when it is polled next, whatever else is done meanwhile. -/
theorem no_read_sleeps :
    (∀ moves : List Feed.Move, let f := moves.foldl Feed.after {}
      (f.isWaiting = true ↔ Feed.Asleep moves) ∧
        (Feed.Asleep moves → f.pending = "" ∧ f.closed = false ∧
          ∀ a later, a.wakes = true → ((a :: later).foldl Feed.act f).request.1 = a.reply)) ∧
    ∀ events : List Reader.Event, let r := Reader.fresh.follow events
      (r.port.source.isWaiting = true ↔ Reader.Asleep events) ∧
        (Reader.Asleep events → ∃ kind f, r.kind? = some kind ∧ r.port.source = .feed f ∧
          f.pending = "" ∧ f.closed = false ∧ ∀ a later, a.wakes = true →
            Woken kind r.port.buffer a (((a :: later).foldl Port.act r.port).read kind)) := by
  constructor
  · intro moves f
    obtain ⟨orderly, sleeps⟩ := Feed.isWaiting_iff_asleep moves
    refine ⟨sleeps, ?_⟩
    intro asleep
    have waiting := sleeps.2 asleep
    obtain ⟨empty, isOpen⟩ := orderly (of_decide_eq_true waiting)
    refine ⟨empty, isOpen, ?_⟩
    intro a later wakes
    exact Feed.request_of_wakes waiting wakes later
  · intro events r
    obtain ⟨linked, sleeps⟩ := Reader.isWaiting_iff_asleep events
    refine ⟨sleeps, ?_⟩
    intro asleep
    have waiting := sleeps.2 asleep
    obtain ⟨kind, kind?⟩ := linked.exists_kind waiting
    obtain ⟨f, source, parked⟩ := Source.exists_parked waiting
    have orderly := linked.orderly
    rw [source] at orderly
    obtain ⟨empty, isOpen⟩ := orderly parked
    refine ⟨kind, f, kind?, source, empty, isOpen, ?_⟩
    intro a later wakes
    exact woken_read (linked.serves kind kind?) waiting wakes later

/-- A read of a number takes a digit in and waits for more. Feeding nothing does not wake it, and neither
    does the wish to start another read. -/
def Reader.resumed : List Reader.Event :=
  [.start .number, .poll, .act (.feed "4"), .poll, .act (.feed ""), .start .character]

theorem no_read_sleeps_resumed :
    let r := Reader.fresh.follow Reader.resumed
    r.port.source.isWaiting = true ∧
      Woken .number ['4'] .close (([.close, .cancel].foldl Port.act r.port).read .number) ∧
      ([.act (.feed "")].foldl Feed.after (Feed.after {} .ask)).isWaiting = true := by
  have asleep : Reader.Asleep Reader.resumed := by
    refine ⟨[.start .number, .poll, .act (.feed "4")], .poll, [.act (.feed ""), .start .character], rfl,
      ⟨rfl, .number, ?_, ?_⟩, ?_⟩
    · decide +kernel
    · decide +kernel
    · decide
  have asleep' : Feed.Asleep [.ask, .act (.feed "")] := ⟨[], .ask, [.act (.feed "")], rfl, by decide, by decide⟩
  have kind : (Reader.fresh.follow Reader.resumed).kind? = some .number := by decide +kernel
  have kept : (Reader.fresh.follow Reader.resumed).port.buffer = ['4'] := by decide +kernel
  obtain ⟨waiting, sleeps⟩ := no_read_sleeps.2 Reader.resumed
  obtain ⟨kind', f, same, -, -, -, woken⟩ := sleeps asleep
  obtain rfl := Option.some.inj (kind.symm.trans same)
  rw [kept] at woken
  exact ⟨waiting.2 asleep, woken .close [.cancel] rfl, (no_read_sleeps.1 _).1.2 asleep'⟩

end Whitespace.Input

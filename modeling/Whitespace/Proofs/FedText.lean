/-
Module: Whitespace.Proofs.FedText
Purpose: What becomes of the text that is fed into one port while reads are started, polled and dropped.
  Text is lost if it is sent to a read that waits and the read is dropped before it is polled again. All
  other text is kept: reads that complete take it from the front, in the order in which it was fed, and
  later reads bring all that they leave.
Main exports: Port.characters, Port.Sound.characters_eq, Reader.lost, Reader.dropsFirst, Reader.keptText,
  Reader.held, Reader.length_keptText, Reader.Keeps, Reader.Keeps.after, Reader.Keeps.follow,
  Reader.fed_text_kept
-/
import Mathlib.Data.List.Forall2
import Whitespace.Proofs.ParkedReads

namespace Whitespace.Input

/-! ### Reads to come -/

/-- The characters that so many reads bring, one after another. A read that brings none is passed over. -/
def Port.characters : Nat → Port → List Char
  | 0, _ => []
  | n + 1, p =>
    match p.readCharacter with
    | (.value c, p') => c :: p'.characters n
    | (.failed _, p') | (.waiting, p') => p'.characters n

section

variable {p : Port} {f : Feed} {n : Nat}

/-- Reads of a port whose source is steady bring a character each, as long as there is one. -/
theorem characters_of_steady {ended : Bool} (steady : p.source.Steady ended)
    (enough : p.remaining.length ≤ n) : p.characters n = p.remaining := by
  induction n generalizing p with
  | zero => exact (List.length_eq_zero_iff.1 (Nat.le_zero.1 enough)).symm
  | succ n ih =>
      have reading := reading_readCharacter steady
      unfold Port.characters
      generalize p.remaining = text at enough reading ⊢
      generalize p.readCharacter = r at reading ⊢
      cases text with
      | cons c rest =>
          cases reading with
          | value steady' remaining =>
              rw [← remaining] at enough ⊢
              exact congrArg (c :: ·) (ih steady' (Nat.le_of_succ_le_succ enough))
      | nil =>
          cases reading with
          | exhausted _ steady' nothing =>
              rw [← nothing]
              apply ih steady'
              rw [nothing]
              exact Nat.zero_le n
          | waiting _ steady' _ nothing =>
              rw [← nothing]
              apply ih steady'
              rw [nothing]
              exact Nat.zero_le n

/-- A read that asks is told that there is nothing for it, whatever is kept back for later ones. -/
def Feed.Dismisses (f : Feed) : Prop := f.waiter = .answered "" ∨ f.waiter = .revoked

theorem Feed.Orderly.steady (orderly : f.Orderly) (gives : ¬ f.Dismisses) : f.Steady f.closed where
  closed_eq := rfl
  kept revoked := gives (.inr revoked)
  parked := orderly
  dismissed told := absurd (.inl told) gives

/-- Only one read is told that there is nothing for it. -/
theorem refill_of_dismisses (dismisses : f.Dismisses) :
    ∃ e, Port.refill ⟨.feed f, []⟩ = (.failed e, ⟨.feed ⟨f.pending, f.closed, .absent⟩, []⟩) := by
  obtain ⟨pending, closed, waiter⟩ := f
  rcases dismisses with told | told
  · obtain rfl : waiter = .answered "" := told
    exact ⟨.exhausted, rfl⟩
  · obtain rfl : waiter = .revoked := told
    exact ⟨.cancelled, rfl⟩

/-- Reads bring all the text that is still to come. One of them may be told that there is none. -/
theorem Port.Sound.characters_eq (sound : p.Sound) (enough : p.remaining.length < n) :
    p.characters n = p.remaining := by
  obtain ⟨orderly, f, source⟩ := sound
  by_cases dismisses : f.Dismisses
  · obtain ⟨_, buffer⟩ := p
    obtain rfl : _ = Source.feed f := source
    induction buffer generalizing n with
    | nil =>
        obtain ⟨m, rfl⟩ := Nat.exists_eq_add_one_of_ne_zero (Nat.ne_zero_of_lt enough)
        obtain ⟨e, told⟩ := refill_of_dismisses dismisses
        -- The read that is told takes nothing, and after it the feed is steady.
        have same : (⟨.feed ⟨f.pending, f.closed, .absent⟩, []⟩ : Port).remaining =
            (⟨.feed f, []⟩ : Port).remaining := by
          have remaining := Port.remaining_refill ⟨.feed f, []⟩
          rw [told] at remaining
          exact remaining
        unfold Port.characters Port.readCharacter
        simp only [told]
        rw [← same] at enough ⊢
        exact characters_of_steady (Feed.steady_absent f.pending f.closed) (Nat.le_of_lt_succ enough)
    | cons c rest ih =>
        obtain ⟨m, rfl⟩ := Nat.exists_eq_add_one_of_ne_zero (Nat.ne_zero_of_lt enough)
        exact congrArg (c :: ·) (ih (Nat.lt_of_succ_lt_succ enough) orderly)
  · rw [source] at orderly
    have steady : p.source.Steady f.closed := by
      rw [source]
      exact Feed.Orderly.steady orderly dismisses
    exact characters_of_steady steady (Nat.le_of_lt enough)

/-! ### Text on its way -/

theorem Feed.sent_of_not_isAttended (free : f.isAttended = false) : f.waiter.sent = "" := by
  obtain ⟨pending, closed, waiter⟩ := f
  cases waiter with
  | answered text => cases free
  | absent | parked | revoked | abandoned => rfl

theorem Feed.sent_of_isWaiting (waiting : f.isWaiting = true) : f.waiter.sent = "" := by
  have parked : f.waiter = .parked := of_decide_eq_true waiting
  rw [parked]
  rfl

/-- What is fed while a read waits is not there any more once the read has been dropped. -/
theorem Port.remaining_abandon_act {a : Action} (orderly : p.source.Orderly) (source : p.source = .feed f)
    (kept : a ≠ .cancel) :
    (p.act a).abandon.remaining = p.abandon.remaining ++ if p.source.isWaiting then [] else a.text := by
  obtain ⟨_, buffer⟩ := p
  obtain rfl : _ = Source.feed f := source
  have fed : (f.act a).abandon.remaining = f.abandon.remaining ++ if f.isWaiting then [] else a.text :=
    Feed.remaining_abandon_act orderly kept
  change buffer ++ (f.act a).abandon.remaining = buffer ++ f.abandon.remaining ++ _
  rw [fed, List.append_assoc]
  rfl

end

/-! ### Readers -/

namespace Reader

/-- The text on its way to the read under way. -/
def sent (r : Reader) : List Char :=
  match r.port.source with
  | .feed f => f.waiter.sent.toList
  | .text _ | .batches _ => []

/-- The text on its way to a read that the event drops. -/
def lostBy (r : Reader) : Event → List Char
  | .drop => if r.kind?.isSome then r.sent else []
  | .start _ | .poll | .act _ => []

/-- The text that was on its way to reads when they were dropped. -/
def lost : Reader → List Event → List Char
  | _, [] => []
  | r, e :: rest => r.lostBy e ++ (r.after e).lost rest

/-- The texts are those that completed reads take for the values. -/
def Spell (texts : List (List Char)) (values : List (ReadKind × Int)) : Prop :=
  List.Forall₂ (fun text (value : ReadKind × Int) => value.1.Spells text value.2) texts values

/-- Is the read under way dropped before it is polled next? -/
def dropsFirst : List Event → Bool
  | [] | .poll :: _ => false
  | .drop :: _ => true
  | .start _ :: rest | .act _ :: rest => dropsFirst rest

/-- The text that an event feeds, unless it goes to a read that waits and is dropped before it is polled
    next. -/
def keptBy (r : Reader) (e : Event) (rest : List Event) : List Char :=
  if r.port.source.isWaiting && dropsFirst rest then [] else e.text

/-- All the text that is fed, but for the text that goes to reads which wait and are dropped before they are
    polled next. -/
def keptText : Reader → List Event → List Char
  | _, [] => []
  | r, e :: rest => r.keptBy e rest ++ (r.after e).keptText rest

/-- The text that is still to come, given what happens next: text on its way to a read counts unless the
    read is dropped before it is polled. -/
def held (r : Reader) (ahead : List Event) : List Char :=
  if dropsFirst ahead then r.port.abandon.remaining else r.port.remaining

/-- The text taken by the completed reads and the text that is still to come are the text that is kept. -/
structure Keeps (kept : List Char) (ahead : List Event) (r : Reader) : Prop where
  linked : r.Linked
  kept : ∃ texts, Spell texts r.values ∧ texts.flatten ++ r.held ahead = kept

section

variable {r : Reader} {kept : List Char} {e : Event} {a : Action} {events rest : List Event}

/-! ### Text on its way -/

theorem sent_eq {f : Feed} (source : r.port.source = .feed f) : r.sent = f.waiter.sent.toList := by
  unfold sent
  rw [source]

theorem sent_of_free (free : r.port.Free) : r.sent = [] := by
  obtain ⟨f, source, unattended⟩ := free
  rw [sent_eq source, Feed.sent_of_not_isAttended unattended]
  rfl

/-- Nothing is on its way to a read that is still asleep. -/
theorem Linked.sent_of_isWaiting (linked : r.Linked) (waiting : r.port.source.isWaiting = true) :
    r.sent = [] := by
  obtain ⟨f, source⟩ := linked.fed
  rw [source] at waiting
  rw [sent_eq source, Feed.sent_of_isWaiting waiting]
  rfl

/-- A read whose poll does not leave it waiting is over. -/
theorem kind?_poll (ends : ¬ r.Waits) : (r.after .poll).kind? = none := by
  unfold Reader.after
  cases kind? : r.kind? with
  | none => exact kind?
  | some kind =>
      rcases polled : r.port.read kind with ⟨o, port⟩
      simp only [polled]
      cases o with
      | value | failed => rfl
      | waiting => exact absurd ⟨kind, kind?, congrArg Prod.fst polled⟩ ends

/-- A read that is polled takes the text on its way to it. -/
theorem Linked.sent_poll (linked : r.Linked) : (r.after .poll).sent = [] := by
  obtain ⟨linked', waiting⟩ := linked.poll
  by_cases waits : r.Waits
  · exact linked'.sent_of_isWaiting (waiting.2 waits)
  · exact sent_of_free (linked'.free (kind?_poll waits))

/-- Nothing is on its way once a read has been dropped. -/
theorem Linked.sent_drop (linked : r.Linked) : (r.after .drop).sent = [] := by
  apply sent_of_free
  apply linked.drop.1.free
  unfold Reader.after
  cases kind? : r.kind? with
  | none => exact kind?
  | some kind => rfl

/-- A read that is dropped takes the text on its way to it away. -/
theorem Linked.lostBy_drop (linked : r.Linked) : r.lostBy .drop = r.sent := by
  unfold lostBy
  cases kind? : r.kind? with
  | none => exact (sent_of_free (linked.free kind?)).symm
  | some kind => rfl

/-- An action sends its text to a read that sleeps, and otherwise leaves what is on its way as it was. -/
theorem Linked.sent_act (linked : r.Linked) (a : Action) :
    (r.after (.act a)).sent = if r.port.source.isWaiting then a.text else r.sent := by
  obtain ⟨f, source⟩ := linked.fed
  have source' : (r.after (.act a)).port.source = .feed (f.act a) := Port.source_act source a
  rw [sent_eq source', sent_eq source, source]
  exact f.sent_act a

/-- Dropping a read takes nothing away where no text is on its way. -/
theorem Linked.held_eq (linked : r.Linked) (nothing : r.sent = []) (ahead : List Event) :
    r.held ahead = r.port.remaining := by
  obtain ⟨f, source⟩ := linked.fed
  rw [sent_eq source] at nothing
  unfold held
  split
  · exact Port.remaining_abandon source (String.toList_eq_nil_iff.1 nothing)
  · rfl

/-- What is fed to a read that waits is held as long as the read is not about to be dropped. -/
theorem Linked.held_act (linked : r.Linked) (proper : a ≠ .cancel) :
    (r.after (.act a)).held rest = r.held (.act a :: rest) ++ r.keptBy (.act a) rest := by
  obtain ⟨f, source⟩ := linked.fed
  have orderly := linked.orderly
  have ahead : dropsFirst (.act a :: rest) = dropsFirst rest := rfl
  unfold held keptBy
  rw [ahead]
  cases drops : dropsFirst rest with
  | false =>
      simp only [Bool.and_false, Bool.false_eq_true, if_false]
      exact Port.remaining_act orderly source proper
  | true =>
      simp only [Bool.and_true, if_true]
      exact Port.remaining_abandon_act orderly source proper

/-- The text that is lost is all that is not kept, but for the text that is on its way and about to be
    lost. -/
theorem length_keptText (linked : r.Linked) :
    (r.keptText events).length + (r.lost events).length =
      (events.flatMap Event.text).length + if dropsFirst events then r.sent.length else 0 := by
  induction events generalizing r with
  | nil => rfl
  | cons e rest ih =>
      have later := ih (linked.after e).1
      unfold keptText lost keptBy
      rw [List.flatMap_cons]
      simp only [List.length_append]
      cases e with
      | start kind =>
          have same : (r.after (.start kind)).sent = r.sent := by
            unfold sent
            rw [(linked.start kind).2]
          have ahead : dropsFirst (.start kind :: rest) = dropsFirst rest := rfl
          rw [same] at later
          rw [ahead]
          simp only [Event.text, lostBy, ite_self, List.length_nil]
          omega
      | poll =>
          rw [linked.sent_poll] at later
          simp only [Event.text, lostBy, dropsFirst, ite_self, List.length_nil, Bool.false_eq_true,
            if_false] at later ⊢
          omega
      | drop =>
          rw [linked.sent_drop] at later
          simp only [Event.text, linked.lostBy_drop, dropsFirst, ite_self, List.length_nil, if_true] at later ⊢
          omega
      | act a =>
          have ahead : dropsFirst (.act a :: rest) = dropsFirst rest := rfl
          rw [linked.sent_act] at later
          rw [ahead]
          cases drops : dropsFirst rest with
          | false =>
              simp only [drops, Event.text, lostBy, Bool.and_false, Bool.false_eq_true, if_false,
                List.length_nil] at later ⊢
              omega
          | true =>
              cases waiting : r.port.source.isWaiting with
              | false =>
                  simp only [drops, waiting, Event.text, lostBy, Bool.and_true, Bool.false_eq_true, if_false,
                    if_true, List.length_nil] at later ⊢
                  omega
              | true =>
                  simp only [drops, waiting, linked.sent_of_isWaiting waiting, Event.text, lostBy,
                    Bool.and_true, if_true, List.length_nil] at later ⊢
                  omega

/-- The text that is kept is a part of what was fed, in the same order. -/
theorem keptText_sublist : (r.keptText events).Sublist (events.flatMap Event.text) := by
  induction events generalizing r with
  | nil => exact .slnil
  | cons e rest ih =>
      unfold keptText keptBy
      rw [List.flatMap_cons]
      split
      · exact ih.trans (List.sublist_append_right _ _)
      · exact ih.append_left _

/-! ### Events one after another -/

/-- Starting a read neither takes text nor loses any. -/
theorem Keeps.start {kind : ReadKind} (keeps : r.Keeps kept (.start kind :: rest)) :
    (r.after (.start kind)).Keeps kept rest := by
  obtain ⟨linked, texts, taken, whole⟩ := keeps
  obtain ⟨linked', port⟩ := linked.start kind
  have values : (r.after (.start kind)).values = r.values := by
    unfold Reader.after
    cases r.kind? <;> rfl
  have held : (r.after (.start kind)).held rest = r.held (.start kind :: rest) := by
    unfold Reader.held
    rw [port]
    rfl
  refine ⟨linked', texts, ?_, ?_⟩
  · rw [values]
    exact taken
  · rw [held]
    exact whole

/-- What a poll does to the text that is still to come: a read that completes takes its text from the front,
    and any other leaves the text as it is. -/
theorem exists_taken (proper : r.isProper .poll = true) :
    ∃ texts values, Spell texts values ∧ (r.after .poll).values = r.values ++ values ∧
      r.port.remaining = texts.flatten ++ (r.after .poll).port.remaining := by
  unfold Reader.after
  cases kind? : r.kind? with
  | none => exact ⟨[], [], .nil, (List.append_nil _).symm, rfl⟩
  | some kind =>
      rcases polled : r.port.read kind with ⟨o, port⟩
      have number (text : String) : o ≠ .failed (.malformed text) := by
        simp only [isProper, kind?, polled] at proper
        rintro rfl
        cases proper
      simp only [polled]
      cases o with
      | value value =>
          obtain ⟨text, spells, remaining⟩ := remaining_of_read polled
          refine ⟨[text], [(kind, value)], .cons spells .nil, rfl, ?_⟩
          rw [List.flatten_singleton]
          exact remaining
      | failed failure =>
          have refilled := refilled_of_read polled nofun number
          exact ⟨[], [], .nil, (List.append_nil _).symm, refilled.remaining_eq.symm⟩
      | waiting =>
          have refilled := refilled_of_read polled nofun number
          exact ⟨[], [], .nil, (List.append_nil _).symm, refilled.remaining_eq.symm⟩

/-- A read that completes takes its text from the front of what is still to come. -/
theorem Keeps.poll (keeps : r.Keeps kept (.poll :: rest)) (proper : r.isProper .poll = true) :
    (r.after .poll).Keeps kept rest := by
  obtain ⟨linked, texts, taken, whole⟩ := keeps
  have linked' := linked.poll.1
  obtain ⟨texts', values', taken', values, remaining⟩ := exists_taken proper
  have held : r.held (.poll :: rest) = r.port.remaining := rfl
  have held' := linked'.held_eq linked.sent_poll rest
  refine ⟨linked', texts ++ texts', ?_, ?_⟩
  · rw [values]
    exact List.rel_append taken taken'
  · rw [held', List.flatten_append, List.append_assoc, ← remaining, ← held]
    exact whole

/-- Dropping a read loses what was on its way to it, which was not counted as still to come. -/
theorem Keeps.drop (keeps : r.Keeps kept (.drop :: rest)) : (r.after .drop).Keeps kept rest := by
  obtain ⟨linked, texts, taken, whole⟩ := keeps
  have linked' := linked.drop.1
  have held : r.held (.drop :: rest) = r.port.abandon.remaining := rfl
  have held' := linked'.held_eq linked.sent_drop rest
  have remaining : (r.after .drop).port.remaining = r.port.abandon.remaining := by
    unfold Reader.after
    cases kind? : r.kind? with
    | none =>
        have nothing : r.sent = [] := sent_of_free (linked.free kind?)
        exact (linked.held_eq nothing [.drop]).symm
    | some kind => rfl
  have values : (r.after .drop).values = r.values := by
    unfold Reader.after
    cases r.kind? <;> rfl
  refine ⟨linked', texts, ?_, ?_⟩
  · rw [values]
    exact taken
  · rw [held', remaining, ← held]
    exact whole

theorem Keeps.act (keeps : r.Keeps kept (.act a :: rest)) (proper : a ≠ .cancel) :
    (r.after (.act a)).Keeps (kept ++ r.keptBy (.act a) rest) rest := by
  obtain ⟨linked, texts, taken, whole⟩ := keeps
  refine ⟨(linked.after (.act a)).1, texts, taken, ?_⟩
  rw [linked.held_act proper, ← List.append_assoc, whole]

/-- What one event does to the text that is kept. -/
theorem Keeps.after (keeps : r.Keeps kept (e :: rest)) (proper : r.isProper e = true) :
    (r.after e).Keeps (kept ++ r.keptBy e rest) rest := by
  have silent (nothing : e.text = []) : kept ++ r.keptBy e rest = kept := by
    unfold keptBy
    rw [nothing, ite_self, List.append_nil]
  cases e with
  | act a => exact keeps.act (of_decide_eq_true proper)
  | start kind =>
      rw [silent rfl]
      exact keeps.start
  | poll =>
      rw [silent rfl]
      exact keeps.poll proper
  | drop =>
      rw [silent rfl]
      exact keeps.drop

/-- What events one after another do to the text that is kept. -/
theorem Keeps.follow (keeps : r.Keeps kept events) (proper : r.allProper events = true) :
    (r.follow events).Keeps (kept ++ r.keptText events) [] := by
  induction events generalizing r kept with
  | nil =>
      rw [keptText, List.append_nil]
      exact keeps
  | cons e rest ih =>
      obtain ⟨first, others⟩ := Bool.and_eq_true_iff.1 proper
      have later := ih (keeps.after first) others
      rw [List.append_assoc] at later
      exact later

theorem keeps_fresh (events : List Event) : fresh.Keeps [] events := by
  refine ⟨linked_fresh, [], .nil, ?_⟩
  rw [linked_fresh.held_eq rfl]
  rfl

/-- The text that completed reads have taken, followed by the text that is still to come, is the text that
    was fed and kept: all but the text that was fed while a read waited which was then dropped before it was
    polled again. That text was on its way to the read, so that nothing is missing if no text was on its way
    to a read that was dropped. Later reads bring all of the text that is still to come. -/
theorem fed_text_kept (events : List Event) (proper : fresh.allProper events = true) :
    ∃ texts, Spell texts (fresh.follow events).values ∧
      texts.flatten ++ (fresh.follow events).port.remaining = fresh.keptText events ∧
      (texts.flatten ++ (fresh.follow events).port.remaining).Sublist (events.flatMap Event.text) ∧
      (texts.flatten ++ (fresh.follow events).port.remaining).length + (fresh.lost events).length =
        (events.flatMap Event.text).length ∧
      (fresh.lost events = [] →
        texts.flatten ++ (fresh.follow events).port.remaining = events.flatMap Event.text) ∧
      ∀ n, (fresh.follow events).port.remaining.length < n →
        (fresh.follow events).port.characters n = (fresh.follow events).port.remaining := by
  obtain ⟨linked, texts, taken, whole⟩ := (keeps_fresh events).follow proper
  have whole' : texts.flatten ++ (fresh.follow events).port.remaining = fresh.keptText events := whole
  have sublist : (fresh.keptText events).Sublist (events.flatMap Event.text) := keptText_sublist
  have lengths : (fresh.keptText events).length + (fresh.lost events).length =
      (events.flatMap Event.text).length := by
    rw [length_keptText linked_fresh]
    exact congrArg _ (ite_self 0)
  refine ⟨texts, taken, whole', ?_, ?_, ?_, ?_⟩
  · rw [whole']
    exact sublist
  · rw [whole']
    exact lengths
  · intro nothing
    rw [nothing] at lengths
    rw [whole']
    exact sublist.eq_of_length lengths
  · intro n enough
    exact Port.Sound.characters_eq ⟨linked.orderly, linked.fed⟩ enough

/-- A read of a number is dropped while it waits, after a digit has come, and another one reads it. -/
def retried : List Event :=
  [.start .number, .poll, .act (.feed "1"), .poll, .drop, .act (.feed "2 x"), .start .number, .poll]

theorem fed_text_kept_retried :
    ∃ texts, Spell texts [(.number, 12)] ∧ texts.flatten ++ ['x'] = ['1', '2', ' ', 'x'] := by
  have proper : fresh.allProper retried = true := by decide +kernel
  have values : (fresh.follow retried).values = [(.number, 12)] := by decide +kernel
  have remaining : (fresh.follow retried).port.remaining = ['x'] := by decide +kernel
  have nothing : fresh.lost retried = [] := by decide +kernel
  obtain ⟨texts, spell, -, -, -, whole, -⟩ := fed_text_kept retried proper
  rw [values] at spell
  rw [remaining] at whole
  exact ⟨texts, spell, whole nothing⟩

/-- A read of a character waits, and it is dropped after a character has been sent to it. -/
def dropped : List Event := [.start .character, .poll, .act (.feed "a"), .drop]

/-- The character is lost. -/
theorem not_fed_text_kept_dropped :
    ¬ ∀ events, fresh.allProper events = true →
      ∃ texts, Spell texts (fresh.follow events).values ∧
        texts.flatten ++ (fresh.follow events).port.remaining = events.flatMap Event.text := by
  intro kept
  have proper : fresh.allProper dropped = true := by decide +kernel
  have values : (fresh.follow dropped).values = [] := by decide +kernel
  have remaining : (fresh.follow dropped).port.remaining = [] := by decide +kernel
  obtain ⟨texts, spell, whole⟩ := kept dropped proper
  rw [values] at spell
  cases spell
  rw [remaining] at whole
  cases whole

end

end Reader

end Whitespace.Input

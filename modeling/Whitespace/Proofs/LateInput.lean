/-
Module: Whitespace.Proofs.LateInput
Purpose: Two machines that differ in when their input arrives. One port lags behind another when it is to
  bring the same text but for an end that has not been delivered to it yet. As long as a machine with the
  lagging port need not wait, it does what the other machine does; and when it has to wait it has done
  nothing and lags as before.
Main exports: Port.Lags, Port.Lags.foldl_act, Port.Lags.foldl_act_abandon, ReadsAlike, Machine.Trails,
  perform_trails, step_trails
-/
import Whitespace.Proofs.PlainReading
import Whitespace.Proofs.StepCases

namespace Whitespace

namespace Input

/-! ### Ports -/

/-- The second port is to bring the same text as the first, except that the text `late` at its end has not
    been delivered to it. Whether the inputs of the two have `closed` and `ended` is known. -/
structure Port.Lags (closed ended : Bool) (late : List Char) (p q : Port) : Prop where
  ahead : p.source.Steady closed
  behind : q.source.Steady ended
  remaining : p.remaining = q.remaining ++ late
  complete : ended = true → closed = true ∧ late = []

/-- Reads of two ports of which the second lags behind: it waits and still lags, or both reads end in the
    same way. -/
inductive ReadsAlike {α : Type} (closed ended : Bool) (late : List Char) (p : Port) :
    Outcome α × Port → Outcome α × Port → Prop where
  | value {a : α} {p' q' : Port} : p'.Lags closed ended late q' →
      ReadsAlike closed ended late p (.value a, p') (.value a, q')
  | failed {e : Error} {p' q' : Port} : ReadsAlike closed ended late p (.failed e, p') (.failed e, q')
  | waiting {r : Outcome α × Port} {q' : Port} : ended = false → q'.source.isWaiting = true →
      p.Lags closed ended late q' → ReadsAlike closed ended late p r (.waiting, q')

section

variable {closed ended : Bool} {late : List Char} {p q : Port}

/-- A read that depends on the front of the text alone ends in the same way on both ports, or has to wait for
    the text that is late. -/
theorem Port.Lags.readsAlike {α : Type} {front : List Char → Front α} {r r' : Outcome α × Port}
    (lags : p.Lags closed ended late q) (local' : Front.Local front)
    (reading : Reading closed p.remaining (front p.remaining) r)
    (reading' : Reading ended q.remaining (front q.remaining) r') :
    ReadsAlike closed ended late p r r' := by
  by_cases short : front q.remaining = .short
  · rw [short] at reading'
    cases reading' with
    | waiting open' behind parked remaining =>
        refine .waiting open' parked ⟨lags.ahead, behind, ?_, lags.complete⟩
        rw [remaining]
        exact lags.remaining
    | exhausted ended_eq behind remaining =>
        obtain ⟨rfl, rfl⟩ := lags.complete ended_eq
        rw [lags.remaining, List.append_nil, short] at reading
        cases reading with
        | exhausted => exact .failed
        | waiting open' => cases open'
  · have same := local' q.remaining late short
    rw [← lags.remaining] at same
    rw [same] at reading
    generalize front q.remaining = found at reading reading' short
    cases reading' with
    | value behind remaining =>
        cases reading with
        | value ahead remaining' =>
            refine .value ⟨ahead, behind, ?_, lags.complete⟩
            rw [remaining', remaining]
    | malformed =>
        cases reading with
        | malformed => exact .failed
    | exhausted | waiting => exact absurd rfl short

/-! ### The feeding side -/

/-- What the feeding side still has to do: to feed the text that is late, and to close the input if it is
    to be closed. -/
inductive Delivers (closed : Bool) : Bool → List Char → List Action → Prop where
  | done {ended : Bool} : ended = closed → Delivers closed ended [] []
  | feed {text : String} {late : List Char} {acts : List Action} : Delivers closed false late acts →
      Delivers closed false (text.toList ++ late) (.feed text :: acts)
  | close {acts : List Action} : closed = true → Delivers closed true [] acts →
      Delivers closed false [] (.close :: acts)

/-- Nothing is left to be done once the input has been closed. -/
theorem Delivers.eq_nil {late : List Char} {acts : List Action} (delivers : Delivers closed true late acts) :
    acts = [] := by
  cases delivers with
  | done => rfl

theorem delivers_close (pieces : List String) :
    Delivers true false (pieces.flatMap String.toList) (pieces.map Action.feed ++ [.close]) := by
  induction pieces with
  | nil => exact .close rfl (.done rfl)
  | cons text rest ih => exact .feed ih

def Port.Fed (q : Port) : Prop := ∃ f, q.source = .feed f

theorem Port.fed_of_isWaiting (waiting : q.source.isWaiting = true) : q.Fed := by
  obtain ⟨f, fed, -⟩ := Source.exists_parked waiting
  exact ⟨f, fed⟩

/-- What the feeding side does makes a port lag less. -/
theorem Port.Lags.foldl_act {acts more : List Action} (lags : p.Lags closed ended late q) (fed : q.Fed)
    (delivers : Delivers closed ended late (acts ++ more)) :
    ∃ ended' late', p.Lags closed ended' late' (acts.foldl Port.act q) ∧
      Delivers closed ended' late' more := by
  induction acts generalizing q ended late with
  | nil => exact ⟨ended, late, lags, delivers⟩
  | cons a rest ih =>
      obtain ⟨f, source⟩ := fed
      have fed' : (q.act a).Fed := ⟨f.act a, Port.source_act source a⟩
      have steady : f.Steady ended := by
        have behind := lags.behind
        rw [source] at behind
        exact behind
      have orderly : q.source.Orderly := by
        rw [source]
        exact steady.orderly
      cases delivers with
      | @feed text late' _ others =>
          have lags' : p.Lags closed false late' (q.act (.feed text)) := by
            refine ⟨lags.ahead, ?_, ?_, nofun⟩
            · rw [Port.source_act source]
              exact steady.feed text
            · have kept : Action.feed text ≠ .cancel := nofun
              rw [Port.remaining_act orderly source kept, lags.remaining, List.append_assoc]
              rfl
          exact ih lags' fed' others
      | close closed_eq others =>
          have lags' : p.Lags closed true [] (q.act .close) := by
            refine ⟨lags.ahead, ?_, ?_, fun _ => ⟨closed_eq, rfl⟩⟩
            · rw [Port.source_act source]
              exact steady.close
            · have kept : Action.close ≠ .cancel := nofun
              rw [Port.remaining_act orderly source kept, lags.remaining, List.append_assoc]
              rfl
          exact ih lags' fed' others

/-- Dropping a read to which nothing is on its way makes no difference. -/
theorem Port.Lags.abandon {f : Feed} (lags : p.Lags closed ended late q) (source : q.source = .feed f)
    (nothing : f.waiter.sent = "") : p.Lags closed ended late q.abandon := by
  have behind := lags.behind
  rw [source] at behind
  refine ⟨lags.ahead, ?_, ?_, lags.complete⟩
  · unfold Port.abandon
    rw [source]
    exact Feed.Steady.abandon behind
  · rw [Port.remaining_abandon source nothing]
    exact lags.remaining

/-- Once text has been sent to a read, it makes no difference when the read is dropped. -/
theorem Feed.abandon_act {f : Feed} {text : String} (answered : f.waiter = .answered text) (a : Action) :
    (f.act a).abandon = f.abandon.act a ∧ (f.act a).waiter = .answered text := by
  obtain ⟨pending, closed, waiter⟩ := f
  obtain rfl : waiter = .answered text := answered
  cases a with
  | feed more =>
      by_cases empty : more = ""
      · simp [act, feed, empty, Feed.abandon]
      · simp [act, feed, empty, Feed.abandon]
  | close | cancel => exact ⟨rfl, rfl⟩

theorem Port.source_abandon {f : Feed} (source : q.source = .feed f) :
    q.abandon.source = .feed f.abandon := by
  unfold Port.abandon
  rw [source]
  rfl

/-- Once text has been sent to a read, the actions that follow pass the read by. -/
theorem Port.abandon_foldl_act {f : Feed} {text : String} (source : q.source = .feed f)
    (answered : f.waiter = .answered text) (acts : List Action) :
    (acts.foldl Port.act q).abandon = acts.foldl Port.act q.abandon := by
  induction acts generalizing q f with
  | nil => rfl
  | cons a rest ih =>
      obtain ⟨commutes, answered'⟩ := Feed.abandon_act answered a
      have first : (q.act a).abandon = q.abandon.act a := by
        obtain ⟨source', buffer⟩ := q
        obtain rfl : source' = .feed f := source
        simp only [Port.act, Port.abandon, Source.mapFeed, commutes]
      rw [List.foldl_cons, ih (Port.source_act source a) answered', first]
      rfl

/-- Text that is fed to a parked read is lost when the read is dropped: no read is under way any more, and
    otherwise the feed is as it was. -/
theorem Feed.abandon_feed_of_parked {f : Feed} {text : String} (parked : f.waiter = .parked)
    (some : text ≠ "") :
    (f.act (.feed text)).waiter = .answered text ∧
      (f.act (.feed text)).abandon = ⟨f.pending, f.closed, .absent⟩ := by
  obtain ⟨pending, closed, waiter⟩ := f
  obtain rfl : waiter = .parked := parked
  simp only [act, feed, some, if_false, Feed.abandon, and_self]

/-- The text that is fed to a parked read and lost with it might as well not have been fed. -/
theorem Port.Lags.lose {f : Feed} {text : String} (lags : p.Lags closed ended late q)
    (source : q.source = .feed f) (parked : f.waiter = .parked) (some : text ≠ "") :
    p.Lags closed ended late (q.act (.feed text)).abandon := by
  obtain ⟨-, lost⟩ := Feed.abandon_feed_of_parked parked some
  have behind := lags.behind
  rw [source] at behind
  have closed_eq : f.closed = ended := behind.closed_eq
  have source' := Port.source_abandon (Port.source_act source (.feed text))
  rw [lost, closed_eq] at source'
  refine ⟨lags.ahead, ?_, ?_, lags.complete⟩
  · rw [source']
    exact Feed.steady_absent f.pending ended
  · have same : (q.act (.feed text)).abandon.remaining = q.remaining := by
      change q.buffer ++ (q.act (.feed text)).abandon.source.remaining = q.buffer ++ q.source.remaining
      rw [source', source]
      simp only [Source.remaining, Feed.remaining, parked, Waiter.sent]
    rw [same]
    exact lags.remaining

/-- A parked read is fed and then dropped. What reaches later reads makes the port lag less, and the text
    that went to the read is as if it had never been fed. -/
theorem Port.Lags.foldl_act_abandon {acts more : List Action} (lags : p.Lags closed ended late q)
    (waiting : q.source.isWaiting = true) (delivers : Delivers closed ended late (survivors acts ++ more)) :
    ∃ ended' late', p.Lags closed ended' late' (acts.foldl Port.act q).abandon ∧
      Delivers closed ended' late' more := by
  obtain ⟨f, source, parked⟩ := Source.exists_parked waiting
  induction acts generalizing late with
  | nil =>
      have nothing : f.waiter.sent = "" := congrArg Waiter.sent parked
      exact ⟨ended, late, lags.abandon source nothing, delivers⟩
  | cons a rest ih =>
      cases a with
      | cancel => cases delivers
      | close =>
          cases delivers with
          | close closed_eq others =>
              -- The input has ended, so nothing is done between the close and the drop.
              have last : rest ++ more = [] := others.eq_nil
              obtain ⟨rfl, rfl⟩ := List.append_eq_nil_iff.1 last
              have fed : q.Fed := ⟨f, source⟩
              have told : f.close.waiter.sent = "" := by
                rw [Feed.close, parked]
                rfl
              have closes : Delivers closed false [] ([.close] ++ []) := .close closed_eq others
              obtain ⟨ended', late', lags', done⟩ := lags.foldl_act fed closes
              exact ⟨ended', late', lags'.abandon (Port.source_act source .close) told, done⟩
      | feed text =>
          by_cases empty : text = ""
          · subst empty
            rw [survivors, if_pos rfl] at delivers
            have idle : q.act (.feed "") = q := by
              obtain ⟨source', buffer⟩ := q
              obtain rfl : source' = .feed f := source
              rfl
            rw [List.foldl_cons, idle]
            cases delivers with
            | feed others => exact ih lags others
          · obtain ⟨answered, -⟩ := Feed.abandon_feed_of_parked parked empty
            rw [survivors, if_neg empty] at delivers
            have lags' := lags.lose source parked empty
            have source' := Port.source_act source (.feed text)
            rw [List.foldl_cons, Port.abandon_foldl_act source' answered]
            exact lags'.foldl_act ⟨_, Port.source_abandon source'⟩ delivers

/-- Ports of which neither lags. -/
theorem Port.Lags.symm (lags : p.Lags ended ended [] q) : q.Lags ended ended [] p := by
  refine ⟨lags.behind, lags.ahead, ?_, fun ended_eq => ⟨ended_eq, rfl⟩⟩
  rw [lags.remaining, List.append_nil, List.append_nil]

theorem Port.fed_abandon (fed : q.Fed) : q.abandon.Fed := by
  obtain ⟨f, source⟩ := fed
  exact ⟨f.abandon, Port.source_abandon source⟩

theorem Port.fed_foldl_act (fed : q.Fed) (acts : List Action) : (acts.foldl Port.act q).Fed := by
  induction acts generalizing q with
  | nil => exact fed
  | cons a rest ih =>
      obtain ⟨f, source⟩ := fed
      exact ih ⟨f.act a, Port.source_act source a⟩

end

end Input

namespace Machine

open Input (Port Front ReadsAlike)

/-- The second machine is the first one, except that its port lags behind. -/
structure Trails (closed ended : Bool) (late : List Char) (m m' : Machine) : Prop where
  state : m'.state = m.state
  output : m'.output = m.output
  input : m.input.Lags closed ended late m'.input

/-- Effects on two machines of which the second trails: it waits and still trails, or both have the same
    effect. -/
inductive Effect.Alike (closed ended : Bool) (late : List Char) (m : Machine) :
    Effect → Effect → Prop where
  | completed {n n' : Machine} : n.Trails closed ended late n' →
      Alike closed ended late m (.completed n) (.completed n')
  | faulted {f : Fault} {n n' : Machine} : n'.state = n.state → n'.output = n.output →
      Alike closed ended late m (.faulted f n) (.faulted f n')
  | waiting {e : Effect} {n' : Machine} : ended = false → n'.input.source.isWaiting = true →
      m.Trails closed ended late n' → Alike closed ended late m e (.waiting n')

/-- Steps of two machines of which the second trails: it waits and still trails, or both take the same
    step. -/
inductive StepsAlike (closed ended : Bool) (late : List Char) (m : Machine) :
    Outcome × Machine → Outcome × Machine → Prop where
  | done {n n' : Machine} : n.Trails closed ended late n' →
      StepsAlike closed ended late m (.done, n) (.done, n')
  | failed {f : Failure} {n n' : Machine} : n'.state = n.state → n'.output = n.output →
      StepsAlike closed ended late m (.failed f, n) (.failed f, n')
  | waiting {r : Outcome × Machine} {n' : Machine} : ended = false →
      n'.input.source.isWaiting = true → m.Trails closed ended late n' →
      StepsAlike closed ended late m r (.waiting, n')

section

variable {closed ended : Bool} {late : List Char} {m m' : Machine}

theorem Trails.allOrNothing (trails : m.Trails closed ended late m') (r : Except Fault State) :
    Effect.Alike closed ended late m (m.allOrNothing r) (m'.allOrNothing r) := by
  cases r with
  | ok s => exact .completed ⟨rfl, trails.output, trails.input⟩
  | error f => exact .faulted trails.state trails.output

/-- What a read brings is stored alike in both machines. -/
theorem Trails.receive {r r' : Input.Outcome Int × Port} (trails : m.Trails closed ended late m')
    (reads : ReadsAlike closed ended late m.input r r') (address : Nat) (rest : Stack) :
    Effect.Alike closed ended late m (m.receive address rest r) (m'.receive address rest r') := by
  cases reads with
  | value lags =>
      refine .completed ⟨?_, trails.output, lags⟩
      simp only [trails.state]
  | failed => exact .faulted trails.state trails.output
  | waiting open' parked lags => exact .waiting open' parked ⟨trails.state, trails.output, lags⟩

/-- A character that is read as its code point is read all the same. -/
theorem reading_codePoint {text : List Char} {front : Front Char} {r : Input.Outcome Char × Port}
    (reading : Input.Reading ended text front r) :
    Input.Reading ended text (front.map fun c => (c.toNat : Int)) (codePoint r) := by
  cases reading with
  | value steady remaining => exact .value steady remaining
  | malformed => exact .malformed
  | exhausted ended_eq steady remaining => exact .exhausted ended_eq steady remaining
  | waiting open' steady parked remaining => exact .waiting open' steady parked remaining

theorem Trails.readCharacter (trails : m.Trails closed ended late m') :
    ReadsAlike closed ended late m.input (codePoint m.input.readCharacter)
      (codePoint m'.input.readCharacter) := by
  apply trails.input.readsAlike (Input.frontCharacter_local.map fun c => (c.toNat : Int))
  · exact reading_codePoint (Input.reading_readCharacter trails.input.ahead)
  · exact reading_codePoint (Input.reading_readCharacter trails.input.behind)

theorem Trails.readNumber (trails : m.Trails closed ended late m') :
    ReadsAlike closed ended late m.input m.input.readNumber m'.input.readNumber := by
  apply trails.input.readsAlike Input.frontNumber_local
  · exact Input.reading_readNumber trails.input.ahead
  · exact Input.reading_readNumber trails.input.behind

/-- A command of the ports has the same effect on both machines, or has to wait for what is late. -/
theorem transfer_trails (trails : m.Trails closed ended late m') (command : PortCommand) :
    Effect.Alike closed ended late m (m.transfer command) (m'.transfer command) := by
  unfold transfer
  rw [trails.state]
  cases m.state.stack.pop? with
  | none => exact .faulted trails.state trails.output
  | some top =>
      obtain ⟨a, rest⟩ := top
      cases command with
      | writeCharacter =>
          simp only [trails.output]
          cases character? a with
          | some c => exact .completed ⟨rfl, rfl, trails.input⟩
          | none => exact .faulted trails.state trails.output
      | writeNumber =>
          simp only [trails.output]
          exact .completed ⟨rfl, rfl, trails.input⟩
      | readCharacter =>
          simp only
          cases checkedAddress a with
          | ok address => exact trails.receive trails.readCharacter address rest
          | error f => exact .faulted trails.state trails.output
      | readNumber =>
          simp only
          cases checkedAddress a with
          | ok address => exact trails.receive trails.readNumber address rest
          | error f => exact .faulted trails.state trails.output

/-- An instruction has the same effect on both machines, or has to wait for what is late. -/
theorem perform_trails (program : Program) (trails : m.Trails closed ended late m') (i : Instruction) :
    Effect.Alike closed ended late m (m.perform program i) (m'.perform program i) := by
  cases i with
  | stack | arithmetic | heap | flow =>
      simp only [perform_stack, perform_arithmetic, perform_heap, perform_flow, trails.state]
      exact trails.allOrNothing _
  | io command =>
      rw [perform_io, perform_io]
      exact transfer_trails trails command

/-- A machine whose input arrives late takes the step of the other machine, or waits. -/
theorem step_trails (program : Program) (trails : m.Trails closed ended late m') :
    StepsAlike closed ended late m (m.step program) (m'.step program) := by
  unfold step
  rw [trails.state]
  cases m.state.halted with
  | true => exact .done trails
  | false =>
      simp only [Bool.false_eq_true, if_false]
      cases program.instruction? m.state.pc with
      | none => exact .failed trails.state trails.output
      | some i =>
          simp only
          have alike := perform_trails program trails i
          generalize m.perform program i = effect, m'.perform program i = effect' at alike ⊢
          cases alike with
          | completed trails' =>
              refine .done ⟨?_, trails'.output, trails'.input⟩
              rw [trails'.state]
          | faulted state output => exact .failed state output
          | waiting open' parked trails' => exact .waiting open' parked trails'

/-- When nothing is late, the other machine has to wait too. -/
theorem step_waits (program : Program) (trails : m.Trails ended ended [] m')
    (waits : (m'.step program).1 = .waiting) : (m.step program).1 = .waiting := by
  have swapped : m'.Trails ended ended [] m :=
    ⟨trails.state.symm, trails.output.symm, trails.input.symm⟩
  have alike := step_trails program swapped
  generalize m.step program = r, m'.step program = r' at alike waits ⊢
  cases alike with
  | waiting => rfl
  | done | failed => cases waits

end

end Machine

end Whitespace

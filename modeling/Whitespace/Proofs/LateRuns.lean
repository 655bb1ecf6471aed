/-
Module: Whitespace.Proofs.LateRuns
Purpose: Runs whose input arrives late. Of two sessions that differ in nothing but the actions that the
  feeding side of the second one has still to take, the second one takes the turns of the first, or it
  waits. If it is served until the actions are taken, it comes to the end that the first one comes to,
  provided that a command which is given up while it waits is started anew where it was left.
Main exports: Session.Behind, TurnsAlike, turn_alike, EndsAlike, Renews, AtWaits, Late, Late.delivered,
  Late.whole, endsWith_carry_cons, endsWith_carry_nil
-/
import Whitespace.Proofs.Delivery
import Whitespace.Proofs.History
import Whitespace.Proofs.LateInput

namespace Whitespace.Session

open Input (Action Delivers)

/-! ### Runs that are taken up again -/

/-- Nothing ends the run before its next step. -/
def Run.Goes (run : Run) (s : Session) : Prop :=
  run.aim.reached s.state = false ∧ (run.aim.heedsInterrupt && s.interrupted) = false

/-- A run that is taken up again would not have ended before its next step either. -/
def Run.Sound (run : Run) (s : Session) : Prop := run.resumed = true → run.Goes s

def withInput (s : Session) (port : Input.Port) : Session :=
  { s with machine := { s.machine with input := port } }

section

variable {s s' : Session} {run run' : Run} {aim : Aim}

theorem turn_of_goes (goes : run.Goes s) : s.turn run = s.takeStep run.aim := by
  obtain ⟨ahead, free⟩ := goes
  unfold turn
  rw [ahead, free]
  cases run.resumed <;> rfl

/-- It makes no difference whether a run has been taken up again. -/
theorem Run.Sound.turn_eq (sound : run.Sound s) : s.turn run = s.turn ⟨run.aim, false⟩ := by
  cases resumed : run.resumed with
  | false =>
      obtain ⟨aim, _⟩ := run
      rw [← resumed]
  | true =>
      have goes : run.Goes s := sound resumed
      have goes' : Run.Goes ⟨run.aim, false⟩ s := goes
      rw [turn_of_goes goes, turn_of_goes goes']

/-- A step that waits is to be resumed with the same aim, and it changes the port alone. -/
theorem takeStep_waiting (waits : s.takeStep aim = (.waiting run', s')) :
    run' = ⟨aim, true⟩ ∧ ∃ port, s' = s.withInput port := by
  unfold takeStep at waits
  rcases stepped : s.machine.step s.program with ⟨o, m⟩
  rw [stepped] at waits
  cases o with
  | failed f => cases waits
  | waiting =>
      obtain ⟨port, rfl⟩ := Machine.step_not_done stepped nofun
      cases waits
      exact ⟨rfl, port, rfl⟩
  | done =>
      simp only at waits
      split at waits <;> cases waits

/-- A run that does not finish with a turn goes on to its next step. -/
theorem goes_of_turn (sound : run.Sound s) (unfinished : (s.turn run).1 ≠ .finished) : run.Goes s := by
  by_contra stops
  have fresh : run.resumed = false := eq_false_of_ne_true (mt sound stops)
  apply unfinished
  unfold turn
  rw [fresh]
  simp only [Bool.false_eq_true, if_false]
  split
  · rfl
  · split
    · rfl
    · next ahead free =>
      exact absurd ⟨eq_false_of_ne_true ahead, eq_false_of_ne_true free⟩ stops

/-- A run that has to wait keeps its aim, and the session changes in its port alone. -/
theorem turn_waiting (sound : run.Sound s) (waits : s.turn run = (.waiting run', s')) :
    run'.aim = run.aim ∧ run'.Goes s' ∧ ∃ port, s' = s.withInput port := by
  have goes : run.Goes s := goes_of_turn sound (by rw [waits]; nofun)
  rw [turn_of_goes goes] at waits
  obtain ⟨rfl, port, rfl⟩ := takeStep_waiting waits
  exact ⟨rfl, goes, port, rfl⟩

theorem begin_resumed (s : Session) (c : Command) : (s.begin c).1.resumed = false := by
  cases c with
  | step | run | runUntilPause | stepOut => rfl
  | stepOver =>
      unfold begin
      cases s.atCall <;> rfl

/-- No command looks at the port before its first step. -/
theorem begin_withInput (s : Session) (c : Command) (port : Input.Port) :
    (s.withInput port).begin c = ((s.begin c).1, (s.begin c).2.withInput port) := by
  cases c with
  | step | run | runUntilPause | stepOut => rfl
  | stepOver =>
      have same : (s.withInput port).atCall = s.atCall := rfl
      unfold begin
      rw [same]
      cases s.atCall <;> rfl

theorem supply_eq (s : Session) (acts : List Action) :
    s.supply acts = s.withInput (acts.foldl Input.Port.act s.machine.input) := by
  induction acts generalizing s with
  | nil => rfl
  | cons a rest ih => exact ih (s.mapFeed (·.act a))

end

/-! ### Sessions that are behind -/

/-- The second session is the first one, except that its feeding side has still to take some actions.
    Whether the input of the first one has `closed` is known. -/
def Behind (closed : Bool) (acts : List Action) (s s' : Session) : Prop :=
  s'.program = s.program ∧ s'.interrupted = s.interrupted ∧
    ∃ ended late, s.machine.Trails closed ended late s'.machine ∧ Delivers closed ended late acts

/-- The same turn of two runs, after which the second session is behind. -/
inductive SameTurn (closed : Bool) (acts : List Action) : Turn × Session → Turn × Session → Prop where
  | finished {t t' : Session} : t.Behind closed acts t' →
      SameTurn closed acts (.finished, t) (.finished, t')
  | failed {f : Machine.Failure} {t t' : Session} : t'.state = t.state →
      t'.machine.output = t.machine.output → SameTurn closed acts (.failed f, t) (.failed f, t')
  | onward {aim : Aim} {t t' : Session} : t.Behind closed acts t' →
      SameTurn closed acts (.onward ⟨aim, false⟩, t) (.onward ⟨aim, false⟩, t')

/-- Turns of two runs of which the second one is in a session that is behind: they are the same, or the
    second run waits and its session stays behind. It waits only if there are actions to take, or if the
    first run waits too. -/
inductive TurnsAlike (closed : Bool) (acts : List Action) (s : Session) :
    Turn × Session → Turn × Session → Prop where
  | same {r r' : Turn × Session} : SameTurn closed acts r r' → TurnsAlike closed acts s r r'
  | waiting {r : Turn × Session} {run' : Run} {t' : Session} : t'.isWaiting = true →
      s.Behind closed acts t' → (acts = [] → ∃ run, r.1 = .waiting run) →
      TurnsAlike closed acts s r (.waiting run', t')

section

variable {closed : Bool} {acts : List Action} {s s' t t' : Session} {run run' : Run} {aim : Aim}

theorem Behind.state_eq (behind : s.Behind closed acts s') : s'.state = s.state := by
  obtain ⟨-, -, ended, late, trails, -⟩ := behind
  exact trails.state

theorem afterStep_congr (program : s'.program = s.program) (before : s'.state = s.state)
    (after : t'.state = t.state) : aim.afterStep s' t' = aim.afterStep s t := by
  cases aim with
  | single | halt | pause => rfl
  | leave depth => simp only [Aim.afterStep, depthAfter, program, before]
  | callee => simp only [Aim.afterStep, after]

/-- A step does the same in a session that is behind, or waits for what is late. -/
theorem takeStep_alike (behind : s.Behind closed acts s') :
    TurnsAlike closed acts s (s.takeStep aim) (s'.takeStep aim) := by
  obtain ⟨program', machine', interrupted'⟩ := s'
  obtain ⟨program, interrupted, ended, late, trails, delivers⟩ := behind
  obtain rfl : program' = s.program := program
  obtain rfl : interrupted' = s.interrupted := interrupted
  have alike := Machine.step_trails s.program trails
  have waits : acts = [] → (machine'.step s.program).1 = .waiting →
      (s.machine.step s.program).1 = .waiting := by
    rintro rfl
    cases delivers with
    | done same =>
        subst same
        exact Machine.step_waits s.program trails
  unfold takeStep
  simp only
  generalize s.machine.step s.program = r, machine'.step s.program = r' at alike waits ⊢
  cases alike with
  | @done n n' trails' =>
      have program : (⟨s.program, machine', s.interrupted⟩ : Session).program = s.program := rfl
      have before : (⟨s.program, machine', s.interrupted⟩ : Session).state = s.state := trails.state
      have after : (⟨s.program, n', s.interrupted⟩ : Session).state =
          (⟨s.program, n, s.interrupted⟩ : Session).state := trails'.state
      simp only [afterStep_congr program before after]
      have behind' : (⟨s.program, n, s.interrupted⟩ : Session).Behind closed acts
          ⟨s.program, n', s.interrupted⟩ := ⟨rfl, rfl, ended, late, trails', delivers⟩
      cases aim.afterStep s ⟨s.program, n, s.interrupted⟩ with
      | none => exact .same (.finished behind')
      | some aim' => exact .same (.onward behind')
  | failed state' output' => exact .same (.failed state' output')
  | @waiting r n' open' parked trails' =>
      refine .waiting parked ⟨rfl, rfl, ended, late, trails', delivers⟩ ?_
      intro nothing
      obtain ⟨o, m⟩ := r
      obtain rfl : o = .waiting := waits nothing rfl
      exact ⟨⟨aim, true⟩, rfl⟩

/-- A turn does the same in a session that is behind, or waits for what is late. -/
theorem turn_alike (behind : s.Behind closed acts s') (sound : run.Sound s) (sound' : run'.Sound s')
    (same : run'.aim = run.aim) : TurnsAlike closed acts s (s.turn run) (s'.turn run') := by
  have state := behind.state_eq
  obtain ⟨program, interrupted, delivers⟩ := behind
  rw [sound.turn_eq, sound'.turn_eq, same]
  unfold turn
  rw [state, interrupted]
  simp only [Bool.false_eq_true, if_false]
  split
  · exact .same (.finished ⟨program, interrupted, delivers⟩)
  · split
    · exact .same (.finished ⟨program, rfl, delivers⟩)
    · exact takeStep_alike ⟨program, interrupted, delivers⟩

end

/-! ### Served runs -/

/-- The property holds whenever the run waits. -/
def AtWaits (property : Run → Session → Prop) (c : Command) (services : List Service) (run : Run)
    (s : Session) : Prop :=
  ∀ run' s', Meets c services run s run' s' → property run' s'

/-- Is the run seen to end within so many turns, the test being passed whenever it waits? -/
def checkWaits (test : Run → Session → Bool) (c : Command) : Nat → List Service → Run → Session → Bool
  | 0, _, _, _ => false
  | turns + 1, services, run, s =>
    match s.turn run, services with
    | (.finished, _), _ | (.failed _, _), _ => true
    | (.onward run', s'), _ => checkWaits test c turns services run' s'
    | (.waiting run', s'), [] => test run' s'
    | (.waiting run', s'), v :: rest =>
      test run' s' && checkWaits test c turns rest (serve c v run' s').1 (serve c v run' s').2

/-- Whenever the run waits, the command would be started anew where the run was left. -/
def Renews (c : Command) : List Service → Run → Session → Prop :=
  AtWaits (fun run s => s.begin c = (⟨run.aim, false⟩, s)) c

/-- The second run has the aim of the first one, in a session that is behind. -/
structure Late (closed : Bool) (acts : List Action) (run : Run) (s : Session) (run' : Run) (s' : Session) :
    Prop where
  behind : s.Behind closed acts s'
  aim : run'.aim = run.aim
  sound : run.Sound s
  sound' : run'.Sound s'

/-- Runs that have ended in the same way, the second one perhaps with actions left to take. -/
inductive EndsAlike (closed : Bool) (acts : List Action) : Progress × Session → Progress × Session → Prop
  where
  | finished {s s' : Session} : s.Behind closed acts s' →
      EndsAlike closed acts (.finished, s) (.finished, s')
  | failed {f : Machine.Failure} {s s' : Session} : s'.state = s.state →
      s'.machine.output = s.machine.output → EndsAlike closed acts (.failed f, s) (.failed f, s')

section

variable {closed : Bool} {acts : List Action} {s s' s₁ : Session} {run run' run₁ : Run} {c : Command}
  {v : Service} {services rest left : List Service} {r r' : Progress × Session} {e : Ending}

/-- A session that takes some of the actions it is behind with is behind with the rest of them. -/
theorem Behind.supply {more : List Action} (behind : s.Behind closed (acts ++ more) s')
    (fed : s'.machine.input.Fed) : s.Behind closed more (s'.supply acts) := by
  obtain ⟨program, interrupted, ended, late, trails, delivers⟩ := behind
  obtain ⟨ended', late', lags, delivers'⟩ := trails.input.foldl_act fed delivers
  rw [supply_eq]
  exact ⟨program, interrupted, ended', late', ⟨trails.state, trails.output, lags⟩, delivers'⟩

/-- A read that waits is fed and then dropped: the session is less behind by what is not lost. -/
theorem Behind.supply_abandon {more : List Action}
    (behind : s.Behind closed (Input.survivors acts ++ more) s') (waiting : s'.isWaiting = true) :
    s.Behind closed more (s'.supply acts).abandon := by
  obtain ⟨program, interrupted, ended, late, trails, delivers⟩ := behind
  obtain ⟨ended', late', lags, delivers'⟩ := trails.input.foldl_act_abandon waiting delivers
  rw [supply_eq]
  exact ⟨program, interrupted, ended', late', ⟨trails.state, trails.output, lags⟩, delivers'⟩

/-- A command starts the same run in a session that is behind. -/
theorem Behind.begin (behind : s.Behind closed acts s') (c : Command) :
    (s'.begin c).1 = (s.begin c).1 ∧ (s.begin c).2.Behind closed acts (s'.begin c).2 := by
  have unpaused : s.unpause.Behind closed acts s'.unpause := by
    have state := behind.state_eq
    obtain ⟨program, interrupted, ended, late, trails, delivers⟩ := behind
    refine ⟨program, interrupted, ended, late, ⟨?_, trails.output, trails.input⟩, delivers⟩
    exact congrArg (fun state : Machine.State => { state with paused := false }) state
  cases c with
  | step | run => exact ⟨rfl, behind⟩
  | runUntilPause | stepOut => exact ⟨rfl, unpaused⟩
  | stepOver =>
      have same : s'.atCall = s.atCall := by
        unfold atCall
        rw [behind.1, behind.state_eq]
      unfold Session.begin
      rw [same]
      cases s.atCall with
      | true => exact ⟨by rfl, unpaused⟩
      | false => exact ⟨by rfl, behind⟩

/-- A run that is served goes on soundly, be it resumed or started anew. -/
theorem sound_serve (goes : run.Goes s) : (serve c v run s).1.Sound (serve c v run s).2 := by
  unfold Session.serve
  cases v.givesUp with
  | false =>
      intro _
      simp only [Bool.false_eq_true, if_false, supply_eq]
      exact goes
  | true =>
      intro resumed
      rw [if_pos rfl, begin_resumed] at resumed
      cases resumed

theorem abandon_eq (s : Session) : s.abandon = s.withInput s.machine.input.abandon := rfl

/-- Serving a run whose command is started anew where it was left changes the port alone. -/
theorem serve_eq (renews : s.begin c = (⟨run.aim, false⟩, s)) :
    (serve c v run s).1.aim = run.aim ∧
      (serve c v run s).2 =
        (if v.givesUp then (s.supply v.actions).abandon else s.supply v.actions).supply v.afterwards := by
  unfold Session.serve
  cases v.givesUp with
  | false => exact ⟨rfl, rfl⟩
  | true =>
      rw [if_pos rfl, if_pos rfl]
      have anew (port : Input.Port) : (s.withInput port).begin c = (⟨run.aim, false⟩, s.withInput port) := by
        rw [begin_withInput, renews]
      rw [supply_eq _ v.afterwards, abandon_eq, supply_eq]
      exact ⟨congrArg (fun r => r.1.aim) (anew _), congrArg Prod.snd (anew _)⟩

/-- A session that waits is less behind once it has been served. -/
theorem Behind.serve {more : List Action} (behind : s.Behind closed (v.kept ++ more) s')
    (waiting : s'.isWaiting = true) (renews : s'.begin c = (⟨run.aim, false⟩, s')) :
    s.Behind closed more (serve c v run s').2 := by
  have fed := Input.Port.fed_of_isWaiting waiting
  have fed' : (s'.supply v.actions).machine.input.Fed := by
    rw [supply_eq]
    exact Input.Port.fed_foldl_act fed v.actions
  rw [Service.kept, List.append_assoc] at behind
  rw [(serve_eq renews).2]
  cases gives : v.givesUp with
  | false =>
      rw [gives, if_neg Bool.false_ne_true] at behind
      exact (behind.supply fed).supply fed'
  | true =>
      rw [gives, if_pos rfl] at behind
      exact (behind.supply_abandon waiting).supply (Input.Port.fed_abandon fed')

theorem Late.turn_alike (late : Late closed acts run s run' s') :
    TurnsAlike closed acts s (s.turn run) (s'.turn run') :=
  Session.turn_alike late.behind late.sound late.sound' late.aim

/-- A late run that is served stays late. -/
theorem Late.serve (late : Late closed ((v :: rest).flatMap Service.kept) run s run' s')
    (renews : Renews c (v :: rest) run' s') (waits : s'.turn run' = (.waiting run₁, s₁)) :
    Late closed (rest.flatMap Service.kept) run s (serve c v run₁ s₁).1 (serve c v run₁ s₁).2 := by
  have alike := late.turn_alike
  have renews' := renews run₁ s₁ (.here waits)
  obtain ⟨aim, goes, -⟩ := turn_waiting late.sound' waits
  rw [waits] at alike
  generalize s.turn run = x at alike
  cases alike with
  | same same => cases same
  | waiting parked behind _ =>
      rw [List.flatMap_cons] at behind
      have same := (serve_eq (v := v) renews').1
      exact ⟨behind.serve parked renews', same.trans (aim.trans late.aim), late.sound, sound_serve goes⟩

theorem AtWaits.onward {property : Run → Session → Prop} (waits : AtWaits property c services run s)
    (onward : s.turn run = (.onward run', s')) : AtWaits property c services run' s' :=
  fun run₁ s₁ meets => waits run₁ s₁ (.onward onward meets)

theorem AtWaits.serve {property : Run → Session → Prop} (waits : AtWaits property c (v :: rest) run s)
    (waiting : s.turn run = (.waiting run', s')) :
    AtWaits property c rest (serve c v run' s').1 (serve c v run' s').2 :=
  fun run₁ s₁ meets => waits run₁ s₁ (.served waiting meets)

/-- A test that is passed whenever the run is seen to wait holds whenever it waits. -/
theorem atWaits_of_check {test : Run → Session → Bool} {turns : Nat}
    (checked : checkWaits test c turns services run s = true) :
    AtWaits (fun run s => test run s = true) c services run s := by
  induction turns generalizing services run s with
  | zero => cases checked
  | succ turns ih =>
      intro run₁ s₁ meets
      unfold checkWaits at checked
      cases meets with
      | here waits =>
          rw [waits] at checked
          cases services with
          | nil => exact checked
          | cons v rest => exact (Bool.and_eq_true_iff.1 checked).1
      | onward onward meets =>
          rw [onward] at checked
          exact ih checked _ _ meets
      | served waits meets =>
          rw [waits] at checked
          exact ih (Bool.and_eq_true_iff.1 checked).2 _ _ meets

/-- A turn of a late run that is not waiting is the same turn of the other run. -/
theorem Late.same_turn (late : Late closed acts run s run' s') {t : Turn} (turned : s'.turn run' = (t, s₁))
    (goes : ∀ run₁, t ≠ .waiting run₁) : SameTurn closed acts (s.turn run) (t, s₁) := by
  have alike := late.turn_alike
  rw [turned] at alike
  generalize s.turn run = x at alike
  cases alike with
  | same same => exact same
  | waiting => exact absurd rfl (goes _)

/-- Where a late run comes to an end, the other one comes to it without waiting. -/
theorem Late.whole (delivered : Delivered c services run' s' r' left)
    (late : Late closed (services.flatMap Service.kept) run s run' s')
    (renews : Renews c services run' s') :
    ∃ r, Delivered c [] run s r [] ∧ EndsAlike closed (left.flatMap Service.kept) r r' := by
  induction delivered generalizing run s with
  | finished turned =>
      have same := late.same_turn turned nofun
      rcases turned' : s.turn run with ⟨t, u⟩
      rw [turned'] at same
      cases same with
      | finished behind => exact ⟨_, .finished turned', .finished behind⟩
  | failed turned =>
      have same := late.same_turn turned nofun
      rcases turned' : s.turn run with ⟨t, u⟩
      rw [turned'] at same
      cases same with
      | failed state output => exact ⟨_, .failed turned', .failed state output⟩
  | onward turned _ ih =>
      have same := late.same_turn turned nofun
      rcases turned' : s.turn run with ⟨t, u⟩
      rw [turned'] at same
      cases same with
      | onward behind =>
          obtain ⟨r, completes, ends⟩ := ih ⟨behind, rfl, nofun, nofun⟩ (renews.onward turned)
          exact ⟨r, .onward turned' completes, ends⟩
  | served turned _ ih => exact ih (late.serve renews turned) (renews.serve turned)

/-- A late run is served until it takes the turn that the other one takes. -/
theorem Late.exists_turn (late : Late closed (services.flatMap Service.kept) run s run' s')
    (renews : Renews c services run' s') {t : Turn} (turned : s.turn run = (t, s₁))
    (goes : ∀ run₁, t ≠ .waiting run₁) :
    ∃ services₁ run₁ s₂, SameTurn closed (services₁.flatMap Service.kept) (t, s₁) (s₂.turn run₁) ∧
      Renews c services₁ run₁ s₂ ∧
      ∀ r left, Delivered c services₁ run₁ s₂ r left → Delivered c services run' s' r left := by
  induction services generalizing run' s' with
  | nil =>
      refine ⟨[], run', s', ?_, renews, fun _ _ delivered => delivered⟩
      have alike := late.turn_alike
      rw [turned] at alike
      generalize s'.turn run' = y at alike
      cases alike with
      | same same => exact same
      | waiting _ _ both =>
          -- Nothing is left to be fed, so the first run would wait too.
          obtain ⟨run₁, waits⟩ := both rfl
          exact absurd waits (goes run₁)
  | cons v rest ih =>
      have alike := late.turn_alike
      rw [turned] at alike
      rcases turned' : s'.turn run' with ⟨t', u⟩
      rw [turned'] at alike
      cases alike with
      | same same =>
          refine ⟨v :: rest, run', s', ?_, renews, fun _ _ delivered => delivered⟩
          rw [turned']
          exact same
      | waiting =>
          obtain ⟨services₁, run₁, s₂, same, renews₁, onward⟩ :=
            ih (late.serve renews turned') (renews.serve turned')
          refine ⟨services₁, run₁, s₂, same, renews₁, ?_⟩
          intro r left delivered
          exact .served turned' (onward r left delivered)

/-- Where a run comes to an end without waiting, a late one comes to it too. -/
theorem Late.delivered (delivered : Delivered c [] run s r left)
    (late : Late closed (services.flatMap Service.kept) run s run' s')
    (renews : Renews c services run' s') :
    ∃ r' left', Delivered c services run' s' r' left' ∧
      EndsAlike closed (left'.flatMap Service.kept) r r' := by
  generalize none_left : ([] : List Service) = whole at delivered
  induction delivered generalizing services run' s' with
  | finished turned =>
      obtain ⟨services₁, run₁, s₂, same, renews₁, served⟩ := late.exists_turn renews turned nofun
      rcases turned' : s₂.turn run₁ with ⟨t, u⟩
      rw [turned'] at same
      cases same with
      | finished behind => exact ⟨_, services₁, served _ _ (.finished turned'), .finished behind⟩
  | failed turned =>
      obtain ⟨services₁, run₁, s₂, same, renews₁, served⟩ := late.exists_turn renews turned nofun
      rcases turned' : s₂.turn run₁ with ⟨t, u⟩
      rw [turned'] at same
      cases same with
      | failed state output => exact ⟨_, services₁, served _ _ (.failed turned'), .failed state output⟩
  | onward turned _ ih =>
      obtain ⟨services₁, run₁, s₂, same, renews₁, served⟩ := late.exists_turn renews turned nofun
      rcases turned' : s₂.turn run₁ with ⟨t, u⟩
      rw [turned'] at same
      cases same with
      | onward behind =>
          obtain ⟨r', left', delivered', ends⟩ :=
            ih ⟨behind, rfl, nofun, nofun⟩ (renews₁.onward turned') none_left
          exact ⟨r', left', served _ _ (.onward turned' delivered'), ends⟩
  | served => cases none_left

theorem Delivered.left_eq_nil (delivered : Delivered c [] run s r left) : left = [] := by
  generalize none_left : ([] : List Service) = whole at delivered
  induction delivered with
  | finished | failed => rfl
  | onward _ _ ih => exact ih none_left
  | served => cases none_left

theorem sound_begin (s : Session) (c : Command) : (s.begin c).1.Sound (s.begin c).2 := by
  intro resumed
  rw [begin_resumed] at resumed
  cases resumed

theorem Behind.late (behind : s.Behind closed acts s') (c : Command) :
    Late closed acts (s.begin c).1 (s.begin c).2 (s'.begin c).1 (s'.begin c).2 := by
  obtain ⟨same, behind'⟩ := behind.begin c
  exact ⟨behind', congrArg Run.aim same, sound_begin s c, sound_begin s' c⟩

/-- Commands come to the same endings in a session that is behind if the first one is started anew where it
    is given up, and the others do so too. -/
theorem endsWith_carry_cons {commands : List Command}
    (behind : s.Behind closed (services.flatMap Service.kept) s')
    (renews : Renews c services (s'.begin c).1 (s'.begin c).2)
    (others : ∀ t t' left, t.Behind closed (List.flatMap Service.kept left) t' →
      (EndsWith (fun turns => carry turns commands [] t) e ↔
        EndsWith (fun turns => carry turns commands left t') e)) :
    EndsWith (fun turns => carry turns (c :: commands) [] s) e ↔
      EndsWith (fun turns => carry turns (c :: commands) services s') e := by
  have late := behind.late c
  rw [ends_carry_cons_iff, ends_carry_cons_iff]
  constructor
  · rintro (⟨t, left, delivered, ends⟩ | ⟨f, t, left, delivered, rfl⟩)
    · obtain ⟨r', left', delivered', alike⟩ := late.delivered delivered renews
      obtain rfl := delivered.left_eq_nil
      cases alike with
      | finished behind' => exact .inl ⟨_, left', delivered', (others _ _ _ behind').1 ends⟩
    · obtain ⟨r', left', delivered', alike⟩ := late.delivered delivered renews
      cases alike with
      | failed state output =>
          refine .inr ⟨f, _, left', delivered', ?_⟩
          rw [state, output]
  · rintro (⟨t', left', delivered', ends⟩ | ⟨f, t', left', delivered', rfl⟩)
    · obtain ⟨r, delivered, alike⟩ := late.whole delivered' renews
      cases alike with
      | finished behind' => exact .inl ⟨_, [], delivered, (others _ _ _ behind').2 ends⟩
    · obtain ⟨r, delivered, alike⟩ := late.whole delivered' renews
      cases alike with
      | failed state output =>
          refine .inr ⟨f, _, [], delivered, ?_⟩
          rw [state, output]

/-- Without commands the machine and the output are those of the session. -/
theorem endsWith_carry_nil (behind : s.Behind closed acts s') :
    EndsWith (fun turns => carry turns [] [] s) e ↔
      EndsWith (fun turns => carry turns [] services s') e := by
  have state := behind.state_eq
  obtain ⟨-, -, ended, late, trails, -⟩ := behind
  rw [ends_carry_nil_iff, ends_carry_nil_iff, state, trails.output]

end

end Whitespace.Session

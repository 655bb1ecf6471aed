/-
Module: Whitespace.Proofs.Delivery
Purpose: Runs that are served when they wait. Whenever a run waits for input, the feeding side acts, and
  then the run goes on, or it is given up and its command is started anew; the feeding side may act between
  the two as well. Text that goes to the read of a run which is then given up is lost, so what counts are
  the actions that are kept. A bound on the turns does not matter once it is large enough, so a delivered
  run is described by a relation that speaks of turns alone.
Main exports: Service, Service.all, Service.kept, supply, serve, deliver, carry, Ending, EndsWith, EndsWith.unique,
  Delivered, Meets, ends_carry_cons_iff
-/
import Whitespace.Proofs.RemainingInput
import Whitespace.Session.Run

namespace Whitespace.Session

/-- What is done when a run waits for input: the feeding side acts, the run may be given up, and the feeding
    side may act again before anything is polled. -/
structure Service where
  actions : List Input.Action
  givesUp : Bool := false
  afterwards : List Input.Action := []
deriving Repr, DecidableEq

def Service.all (v : Service) : List Input.Action := v.actions ++ v.afterwards

/-- The actions of a service but for the feeding of text that is lost with the run that is given up. -/
def Service.kept (v : Service) : List Input.Action :=
  (if v.givesUp then Input.survivors v.actions else v.actions) ++ v.afterwards

/-- A run that is given up before it is fed anything takes no text with it. -/
theorem Service.kept_eq_all {v : Service} (silent : v.givesUp = true → ∀ a ∈ v.actions, a.text = []) :
    v.kept = v.all := by
  unfold Service.kept
  cases gives : v.givesUp with
  | false => rfl
  | true =>
      rw [if_pos rfl, Input.survivors_of_silent (silent gives)]
      rfl

def supply (s : Session) (acts : List Input.Action) : Session :=
  acts.foldl (fun s a => s.mapFeed (·.act a)) s

/-- Serves a run that waits. The command of a run that is given up is started anew in the end. -/
def serve (c : Command) (v : Service) (run : Run) (s : Session) : Run × Session :=
  if v.givesUp then ((s.supply v.actions).abandon.supply v.afterwards).begin c
  else (run, (s.supply v.actions).supply v.afterwards)

/-- Serves a run whenever it waits, until it ends or no more services are left. Each time it goes on it
    takes at most as many turns as given. The services that were not needed are given back. -/
def deliver (turns : Nat) (c : Command) :
    List Service → Progress × Session → (Progress × Session) × List Service
  | v :: rest, (.waiting run, s) =>
    deliver turns c rest (advance turns (serve c v run s).1 (serve c v run s).2)
  | services, result => (result, services)

/-- Carries out commands one after another, until one of them does not finish. -/
def carry (turns : Nat) : List Command → List Service → Session → Progress × Session
  | [], _, s => (.finished, s)
  | c :: rest, services, s =>
    match deliver turns c services (launch turns s c) with
    | ((.finished, s'), left) => carry turns rest left s'
    | (result, _) => result

/-- Carrying out one command is to start it and to deliver what it waits for. -/
theorem carry_singleton {turns : Nat} {c : Command} {services : List Service} {s : Session} :
    carry turns [c] services s = (deliver turns c services (launch turns s c)).1 := by
  unfold carry
  rcases deliver turns c services (launch turns s c) with ⟨⟨p, s'⟩, left⟩
  cases p with
  | finished | failed | waiting | unfinished => rfl

/-- How commands have ended: the failure, if there was one, the state of the machine and the output. -/
structure Ending where
  failure? : Option Machine.Failure
  state : Machine.State
  output : Output

/-- The ending of a run that is neither waiting nor unfinished. -/
def ending? : Progress × Session → Option Ending
  | (.finished, s) => some ⟨none, s.state, s.machine.output⟩
  | (.failed f, s) => some ⟨some f, s.state, s.machine.output⟩
  | (.waiting _, _) | (.unfinished _, _) => none

/-- Given enough turns, the commands come to an ending. -/
def EndsWith (outcome : Nat → Progress × Session) (e : Ending) : Prop :=
  ∃ turns, ending? (outcome turns) = some e

/-! ### Enough turns -/

section

variable {turns : Nat} {c : Command} {run run' : Run} {s s' : Session} {services left : List Service}
  {r : Progress × Session} {e e' : Ending}

@[simp] theorem deliver_unfinished : deliver turns c services (.unfinished run, s) =
    ((.unfinished run, s), services) := by
  cases services <;> rfl

@[simp] theorem deliver_finished : deliver turns c services (.finished, s) =
    ((.finished, s), services) := by
  cases services <;> rfl

@[simp] theorem deliver_failed {f : Machine.Failure} : deliver turns c services (.failed f, s) =
    ((.failed f, s), services) := by
  cases services <;> rfl

/-- A run that has ended or waits makes no use of more turns. -/
theorem advance_succ (enough : ∀ run', (advance turns run s).1 ≠ .unfinished run') :
    advance (turns + 1) run s = advance turns run s := by
  induction turns generalizing run s with
  | zero => exact absurd rfl (enough run)
  | succ turns ih =>
      unfold advance at enough ⊢
      generalize s.turn run = turned at enough ⊢
      obtain ⟨t, s'⟩ := turned
      cases t with
      | finished | failed | waiting => rfl
      | onward run' => exact ih enough

/-- A stretch of a delivered run that comes to an ending makes no use of more turns. -/
theorem advance_succ_of_delivered {more : Nat} (ended : ending? r = some e)
    (delivered : deliver turns c services (advance more run s) = (r, left)) :
    advance (more + 1) run s = advance more run s := by
  apply advance_succ
  intro run' unfinished
  generalize advance more run s = x at delivered unfinished
  obtain ⟨p, s'⟩ := x
  obtain rfl : p = .unfinished run' := unfinished
  rw [deliver_unfinished] at delivered
  cases delivered
  cases ended

/-- A delivered run that has ended makes no use of more turns. -/
theorem deliver_succ {x : Progress × Session} (ended : ending? r = some e)
    (delivered : deliver turns c services x = (r, left)) :
    deliver (turns + 1) c services x = (r, left) := by
  induction services generalizing x with
  | nil => exact delivered
  | cons v rest ih =>
      obtain ⟨p, s⟩ := x
      cases p with
      | finished | failed | unfinished => exact delivered
      | waiting run =>
          unfold deliver at delivered ⊢
          rw [advance_succ_of_delivered ended delivered]
          exact ih delivered

/-- Commands that have ended make no use of more turns. -/
theorem carry_succ {commands : List Command} (ended : ending? (carry turns commands services s) = some e) :
    ending? (carry (turns + 1) commands services s) = some e := by
  induction commands generalizing services s with
  | nil => exact ended
  | cons c rest ih =>
      unfold carry at ended ⊢
      rcases delivered : deliver turns c services (launch turns s c) with ⟨⟨p, s'⟩, left⟩
      rw [delivered] at ended
      have delivered' : deliver turns c services (advance turns (s.begin c).1 (s.begin c).2) =
          ((p, s'), left) := delivered
      have later {e' : Ending} (ended' : ending? (p, s') = some e') :
          deliver (turns + 1) c services (launch (turns + 1) s c) = ((p, s'), left) := by
        change deliver (turns + 1) c services (advance (turns + 1) (s.begin c).1 (s.begin c).2) = _
        rw [advance_succ_of_delivered ended' delivered']
        exact deliver_succ ended' delivered'
      cases p with
      | finished =>
          rw [later rfl]
          exact ih ended
      | failed f =>
          rw [later rfl]
          exact ended
      | waiting | unfinished => cases ended

/-- Commands that come to an ending come to it with every larger number of turns. -/
theorem EndsWith.eventually {commands : List Command}
    (ends : EndsWith (fun turns => carry turns commands services s) e) :
    ∃ enough, ∀ turns, enough ≤ turns → ending? (carry turns commands services s) = some e := by
  obtain ⟨enough, ended⟩ := ends
  refine ⟨enough, ?_⟩
  intro turns more
  induction more with
  | refl => exact ended
  | step _ ih => exact carry_succ ih

/-- Commands come to one ending at most. -/
theorem EndsWith.unique {commands : List Command}
    (ends : EndsWith (fun turns => carry turns commands services s) e)
    (ends' : EndsWith (fun turns => carry turns commands services s) e') : e = e' := by
  obtain ⟨enough, ended⟩ := ends.eventually
  obtain ⟨enough', ended'⟩ := ends'.eventually
  have first := ended (max enough enough') (Nat.le_max_left _ _)
  rw [ended' (max enough enough') (Nat.le_max_right _ _)] at first
  exact (Option.some.inj first).symm

end

/-! ### Delivered runs -/

/-- The run, served whenever it waits, comes to an end. The services that were not needed are left. -/
inductive Delivered (c : Command) : List Service → Run → Session → Progress × Session → List Service → Prop
  where
  | finished {services : List Service} {run : Run} {s s' : Session} :
      s.turn run = (.finished, s') → Delivered c services run s (.finished, s') services
  | failed {services : List Service} {run : Run} {s s' : Session} {f : Machine.Failure} :
      s.turn run = (.failed f, s') → Delivered c services run s (.failed f, s') services
  | onward {services left : List Service} {run run' : Run} {s s' : Session} {r : Progress × Session} :
      s.turn run = (.onward run', s') → Delivered c services run' s' r left →
      Delivered c services run s r left
  | served {v : Service} {rest left : List Service} {run run' : Run} {s s' : Session}
      {r : Progress × Session} : s.turn run = (.waiting run', s') →
      Delivered c rest (serve c v run' s').1 (serve c v run' s').2 r left →
      Delivered c (v :: rest) run s r left

/-- On the way of a delivered run there is a moment at which it waits. -/
inductive Meets (c : Command) : List Service → Run → Session → Run → Session → Prop where
  | here {services : List Service} {run run' : Run} {s s' : Session} :
      s.turn run = (.waiting run', s') → Meets c services run s run' s'
  | onward {services : List Service} {run run' run'' : Run} {s s' s'' : Session} :
      s.turn run = (.onward run', s') → Meets c services run' s' run'' s'' →
      Meets c services run s run'' s''
  | served {v : Service} {rest : List Service} {run run' run'' : Run} {s s' s'' : Session} :
      s.turn run = (.waiting run', s') →
      Meets c rest (serve c v run' s').1 (serve c v run' s').2 run'' s'' →
      Meets c (v :: rest) run s run'' s''

section

variable {turns : Nat} {c : Command} {commands : List Command} {run : Run} {s : Session}
  {services left : List Service} {r : Progress × Session} {e e' : Ending}

/-- One stretch of a delivered run, from where it was served last. -/
theorem delivered_of_advance {more : Nat} (ended : ending? r = some e)
    (later : ∀ v rest, services = v :: rest → ∀ run s,
      deliver turns c rest (advance turns run s) = (r, left) → Delivered c rest run s r left)
    (delivered : deliver turns c services (advance more run s) = (r, left)) :
    Delivered c services run s r left := by
  induction more generalizing run s with
  | zero =>
      rw [advance, deliver_unfinished] at delivered
      cases delivered
      cases ended
  | succ more ih =>
      unfold advance at delivered
      rcases turned : s.turn run with ⟨t, s'⟩
      rw [turned] at delivered
      cases t with
      | finished =>
          rw [deliver_finished] at delivered
          cases delivered
          exact .finished turned
      | failed f =>
          rw [deliver_failed] at delivered
          cases delivered
          exact .failed turned
      | onward run' => exact .onward turned (ih delivered)
      | waiting run' =>
          cases services with
          | nil =>
              cases delivered
              cases ended
          | cons v rest => exact .served turned (later v rest rfl _ _ delivered)

/-- A delivered run that comes to an ending goes the way of the relation. -/
theorem delivered_of_deliver (ended : ending? r = some e)
    (delivered : deliver turns c services (advance turns run s) = (r, left)) :
    Delivered c services run s r left := by
  induction services generalizing run s with
  | nil => exact delivered_of_advance ended nofun delivered
  | cons v rest ih =>
      refine delivered_of_advance ended ?_ delivered
      intro v' rest' same run' s' delivered'
      cases same
      exact ih delivered'

/-- A command that completes ends in one of the endings. -/
theorem Delivered.ending (completes : Delivered c services run s r left) : ∃ e, ending? r = some e := by
  induction completes with
  | finished => exact ⟨_, rfl⟩
  | failed => exact ⟨_, rfl⟩
  | onward _ _ ih => exact ih
  | served _ _ ih => exact ih

/-- A run that goes the way of the relation comes to its end, given enough turns. -/
theorem Delivered.exists_deliver (completes : Delivered c services run s r left) :
    ∃ enough, ∀ turns, enough ≤ turns →
      deliver turns c services (advance turns run s) = (r, left) := by
  obtain ⟨e, ended⟩ := completes.ending
  induction completes with
  | finished turned =>
      refine ⟨1, ?_⟩
      intro turns more
      obtain ⟨turns, rfl⟩ := Nat.exists_eq_add_of_le' more
      rw [advance, turned]
      exact deliver_finished
  | failed turned =>
      refine ⟨1, ?_⟩
      intro turns more
      obtain ⟨turns, rfl⟩ := Nat.exists_eq_add_of_le' more
      rw [advance, turned]
      exact deliver_failed
  | onward turned _ ih =>
      obtain ⟨enough, delivered⟩ := ih ended
      refine ⟨enough + 1, ?_⟩
      intro turns more
      obtain ⟨turns, rfl⟩ := Nat.exists_eq_add_of_le' more
      rw [← Nat.add_assoc, advance, turned]
      exact deliver_succ ended (delivered _ (Nat.le_add_left _ _))
  | @served v rest left run run' s s' r turned _ ih =>
      obtain ⟨enough, delivered⟩ := ih ended
      refine ⟨enough + 1, ?_⟩
      intro turns more
      obtain ⟨turns, rfl⟩ := Nat.exists_eq_add_of_le' more
      have served : deliver (turns + enough) c (v :: rest) (.waiting run', s') = (r, left) :=
        delivered _ (Nat.le_add_left _ _)
      rw [← Nat.add_assoc, advance, turned]
      exact deliver_succ ended served

/-! ### Commands one after another -/

/-- No command is left. -/
theorem ends_carry_nil_iff :
    EndsWith (fun turns => carry turns [] services s) e ↔ e = ⟨none, s.state, s.machine.output⟩ := by
  constructor
  · intro ⟨turns, ended⟩
    exact (Option.some.inj ended).symm
  · intro same
    exact ⟨0, congrArg some same.symm⟩

/-- The first command completes, and if it has not failed, the others come to the ending. -/
theorem ends_carry_cons_iff :
    EndsWith (fun turns => carry turns (c :: commands) services s) e ↔
      (∃ s' left, Delivered c services (s.begin c).1 (s.begin c).2 (.finished, s') left ∧
        EndsWith (fun turns => carry turns commands left s') e) ∨
      ∃ f s' left, Delivered c services (s.begin c).1 (s.begin c).2 (.failed f, s') left ∧
        e = ⟨some f, s'.state, s'.machine.output⟩ := by
  constructor
  · intro ⟨turns, ended⟩
    simp only [carry] at ended
    rcases delivered : deliver turns c services (launch turns s c) with ⟨⟨p, s'⟩, left⟩
    rw [delivered] at ended
    cases p with
    | finished => exact .inl ⟨s', left, delivered_of_deliver rfl delivered, turns, ended⟩
    | failed f =>
        exact .inr ⟨f, s', left, delivered_of_deliver rfl delivered, (Option.some.inj ended).symm⟩
    | waiting | unfinished => cases ended
  · rintro (⟨s', left, completes, ends⟩ | ⟨f, s', left, completes, rfl⟩)
    · obtain ⟨enough, delivered⟩ := completes.exists_deliver
      obtain ⟨enough', ended⟩ := ends.eventually
      have first := delivered (max enough enough') (Nat.le_max_left _ _)
      refine ⟨max enough enough', ?_⟩
      simp only [carry, launch, first]
      exact ended _ (Nat.le_max_right _ _)
    · obtain ⟨enough, delivered⟩ := completes.exists_deliver
      refine ⟨enough, ?_⟩
      simp only [carry, launch, delivered enough (Nat.le_refl _)]
      rfl

end

end Whitespace.Session

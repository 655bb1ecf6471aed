/-
Module: Whitespace.Input.Feed
Purpose: Input that arrives from outside while a program runs. Text that is fed is kept until a read
  asks for it; a read that finds nothing is parked, and the next text goes to it directly. At most one
  read is under way at a time, so a single waiter describes how it stands with the feeding side. The
  waiter of a read that has been dropped stays behind until the feeding side notices.
Main exports: Waiter, Feed, Reply, Feed.request, Feed.abandon, Feed.feed, Feed.close, Feed.cancel,
  Feed.isWaiting
-/

namespace Whitespace.Input

/-- How the read that last asked for text stands with the feeding side. -/
inductive Waiter where
  /-- No read is waiting for anything. -/
  | absent
  /-- A read waits for text. -/
  | parked
  /-- The text for a read has been sent, and the read has not looked yet. -/
  | answered (text : String)
  /-- The feeding side has called off a read, and the read has not looked yet. -/
  | revoked
  /-- The read is gone, and the feeding side has not noticed. -/
  | abandoned
deriving Repr, DecidableEq, Inhabited

/-- Input fed from outside: the text that no read has asked for yet, whether the input has ended, and
    the waiter. -/
structure Feed where
  pending : String := ""
  closed : Bool := false
  waiter : Waiter := .absent
deriving Repr, DecidableEq, Inhabited

/-- What a request for text brings. An empty batch says that the input has ended. -/
inductive Reply where
  | batch (text : String)
  | cancelled
  | waiting
deriving Repr, DecidableEq

namespace Feed

/-- A read asks for text, or a parked read asks again. Text kept back is handed over as a whole. -/
def request (f : Feed) : Reply × Feed :=
  match f.waiter with
  | .parked => (.waiting, f)
  | .answered text => (.batch text, { f with waiter := .absent })
  | .revoked => (.cancelled, { f with waiter := .absent })
  | .absent | .abandoned =>
    if f.pending ≠ "" then (.batch f.pending, { f with pending := "" })
    else if f.closed then (.batch "", f)
    else (.waiting, { f with waiter := .parked })

/-- The read under way is dropped. Text already sent to it is lost. -/
def abandon (f : Feed) : Feed :=
  match f.waiter with
  | .parked => { f with waiter := .abandoned }
  | .answered _ | .revoked => { f with waiter := .absent }
  | .absent | .abandoned => f

/-- Supplies text: to the parked read if there is one, else for a later read. -/
def feed (f : Feed) (text : String) : Feed :=
  if text = "" then f else
  match f.waiter with
  | .parked => { f with waiter := .answered text }
  | .abandoned => { f with pending := f.pending ++ text, waiter := .absent }
  | _ => { f with pending := f.pending ++ text }

/-- Ends the input, for the parked read and for every later one. -/
def close (f : Feed) : Feed :=
  match f.waiter with
  | .parked => { f with closed := true, waiter := .answered "" }
  | .abandoned => { f with closed := true, waiter := .absent }
  | _ => { f with closed := true }

/-- Calls off the parked read, forgets the text kept back and opens the input again. -/
def cancel (f : Feed) : Feed :=
  match f.waiter with
  | .parked => { waiter := .revoked }
  | .abandoned => {}
  | w => { waiter := w }

def isWaiting (f : Feed) : Bool :=
  f.waiter = .parked

/-- The number of batches that can be asked for before a request has to wait or the input ends. -/
def supply (f : Feed) : Nat :=
  (match f.waiter with | .answered _ => 1 | _ => 0) + (if f.pending = "" then 0 else 1)

/-- A request that brings text uses up a batch. -/
theorem supply_request {f f' : Feed} {text : String} (h : f.request = (.batch text, f'))
    (ht : text ≠ "") : f'.supply < f.supply := by
  unfold request at h
  split at h <;> try (split at h)
  all_goals try (split at h)
  all_goals simp_all [supply]
  all_goals (obtain ⟨rfl, rfl⟩ := h; simp_all)

end Feed

end Whitespace.Input

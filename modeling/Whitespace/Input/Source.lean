/-
Module: Whitespace.Input.Source
Purpose: Where the input of a program comes from: a text known from the start, batches known from the
  start, or a feed. A source is asked for one batch at a time, and an empty batch says that the input
  has ended.
Main exports: Source, Source.request
-/
import Whitespace.Input.Feed

namespace Whitespace.Input

/-- A supplier of input text. -/
inductive Source where
  /-- A text that is handed over as a whole, once. -/
  | text (rest : Option String)
  /-- Batches that are handed over one by one. -/
  | batches (rest : List String)
  /-- Text that is fed while the program runs. -/
  | feed (feed : Feed)
deriving Repr, DecidableEq

namespace Source

def ofText (text : String) : Source := .text (some text)

def ofBatches (batches : List String) : Source := .batches batches

/-- A feed into which nothing has been fed yet. -/
def fresh : Source := .feed {}

/-- Asks for the next batch. -/
def request : Source → Reply × Source
  | .text (some t) => (.batch t, .text none)
  | .text none => (.batch "", .text none)
  | .batches (t :: rest) => (.batch t, .batches rest)
  | .batches [] => (.batch "", .batches [])
  | .feed f => let (reply, f') := f.request; (reply, .feed f')

/-- Changes the feed; a source of another kind has none and stays as it is. -/
def mapFeed (change : Feed → Feed) : Source → Source
  | .feed f => .feed (change f)
  | s => s

def isWaiting : Source → Bool
  | .feed f => f.isWaiting
  | _ => false

/-- The number of batches that can be asked for before a request has to wait or the input ends. -/
def supply : Source → Nat
  | .text (some _) => 1
  | .text none => 0
  | .batches rest => rest.length
  | .feed f => f.supply

/-- A request that brings text uses up a batch. -/
theorem supply_request {s s' : Source} {text : String} (h : s.request = (.batch text, s'))
    (ht : text ≠ "") : s'.supply < s.supply := by
  cases s with
  | text rest =>
    cases rest with
    | none => simp [request] at h; exact absurd h.1 ht
    | some t => simp only [request, Prod.mk.injEq] at h; simp [← h.2, supply]
  | batches rest =>
    cases rest with
    | nil => simp [request] at h; exact absurd h.1 ht
    | cons t more => simp only [request, Prod.mk.injEq] at h; simp [← h.2, supply]
  | feed f =>
    simp only [request, Prod.mk.injEq] at h
    rw [← h.2]
    exact Feed.supply_request (Prod.ext h.1 rfl) ht

end Source

end Whitespace.Input

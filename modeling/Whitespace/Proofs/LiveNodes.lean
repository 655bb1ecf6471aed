/-
Module: Whitespace.Proofs.LiveNodes
Purpose: Which lines control reaches when there is a block among them that it passes over. The block
  begins with a jump to the label at its end. As long as no line goes to that label, control reaches the
  same lines outside the block and the same lines of its body, wherever the block stands; and the same
  lines again without the block, as long as no line that it reaches goes to a label of the block.
Main exports: LiveNode, EntersNode, gated, LiveNode.live, Passable, passable, liveNode_alone_iff
-/
import Whitespace.Proofs.Detours

namespace Whitespace.Assembly

/-! ### Live nodes -/

/-- The nodes that control can reach when it passes over the block. -/
inductive LiveNode (core body : List Conduct) : Node → Prop where
  | first {c : Conduct} : core[0]? = some c → LiveNode core body (.core 0)
  | following {n : Node} {c d : Conduct} : LiveNode core body n → n.item? core body = some c →
      c.continues = true → n.next.item? core body = some d → LiveNode core body n.next
  | referred {n n' : Node} {c d : Conduct} {name : String} : LiveNode core body n →
      n.item? core body = some c → c.refersTo = some name → n'.item? core body = some d →
      d.marksLabel = some name → LiveNode core body n'

/-- Control comes to a position of the core from the line before it, or at the start. -/
def EntersNode (core body : List Conduct) (position : Nat) : Prop :=
  position = 0 ∨ ∃ i d, position = i + 1 ∧ LiveNode core body (.core i) ∧ core[i]? = some d ∧
    d.continues = true

/-- The lines of a core, with a block at a position that begins with a jump to the label at its end. -/
def gated (label : String) (position : Nat) (core body : List Conduct) : List Conduct :=
  arrange (some position) (⟨none, some label, false⟩ :: body ++ [⟨some label, none, true⟩]) core

section

variable {label : String} {position : Nat} {core body : List Conduct} {n : Node} {d : Conduct}

theorem LiveNode.exists_item (h : LiveNode core body n) : ∃ d, n.item? core body = some d := by
  cases h with
  | first here => exact ⟨_, here⟩
  | following _ _ _ here => exact ⟨_, here⟩
  | referred _ _ _ here _ => exact ⟨_, here⟩

theorem gated_getElem? (label : String) (bound : position ≤ core.length) (item : n.item? core body = some d) :
    (gated label position core body)[n.place (some position) body.length]? = some d :=
  arrange_getElem?_node bound item

/-- Behind a live jump over the block, the label at the end of the block is live. -/
theorem Live.over_block (bound : position ≤ core.length)
    (live : Live (gated label position core body) position) :
    Live (gated label position core body) (position + (body.length + 1)) :=
  .referred live (arrange_getElem?_first bound) rfl (arrange_getElem?_last bound) rfl

/-- And so is the line behind the block. -/
theorem Live.behind_block (bound : position ≤ core.length)
    (live : Live (gated label position core body) position) (here : core[position]? = some d) :
    Live (gated label position core body) ((Node.core position).place (some position) body.length) := by
  have item : (Node.core position).item? core body = some d := here
  have behind := gated_getElem? label bound item
  rw [Node.place_behind] at behind ⊢
  exact .following (live.over_block bound) (arrange_getElem?_last bound) rfl behind

/-- Where control enters at the position of the block, it reaches the jump in front of it. -/
theorem EntersNode.live (bound : position ≤ core.length) (enters : EntersNode core body position)
    (live : ∀ i, LiveNode core body (.core i) → i + 1 = position →
      Live (gated label position core body) ((Node.core i).place (some position) body.length)) :
    Live (gated label position core body) position := by
  rcases enters with rfl | ⟨i, d, rfl, before, here, continues⟩
  · exact .first (arrange_getElem?_first bound)
  · have started := live i before rfl
    have item : (Node.core i).item? core body = some d := here
    have line := gated_getElem? label bound item
    rw [Node.place_before] at started line
    exact .following started line continues (arrange_getElem?_first bound)

/-- A live node is live wherever the block stands. -/
theorem LiveNode.live (bound : position ≤ core.length) (h : LiveNode core body n) :
    Live (gated label position core body) (n.place (some position) body.length) := by
  induction h with
  | first here =>
      by_cases start : position = 0
      · subst start
        exact Live.behind_block bound (.first (arrange_getElem?_first bound)) here
      · have place : (Node.core 0).place (some position) body.length = 0 :=
          if_pos (Nat.pos_of_ne_zero start)
        have item : (Node.core 0).item? core body = some _ := here
        have line := gated_getElem? label bound item
        rw [place] at line ⊢
        exact .first line
  | @following n c d live item continues next ih =>
      have line := gated_getElem? label bound item
      have behind := gated_getElem? label bound next
      cases n with
      | body i => exact .following ih line continues behind
      | core i =>
          by_cases here : i + 1 = position
          · subst here
            have entered : EntersNode core body (i + 1) := .inr ⟨i, c, rfl, live, item, continues⟩
            refine Live.behind_block bound (entered.live bound ?_) next
            intro j _ same
            obtain rfl : j = i := Nat.succ.inj same
            exact ih
          · have place := Node.place_succ here body.length
            change Live _ ((Node.core (i + 1)).place (some position) body.length)
            rw [Node.next, place] at behind
            rw [place]
            exact .following ih line continues behind
  | referred live item refers item' marks ih =>
      exact .referred ih (gated_getElem? label bound item) refers (gated_getElem? label bound item') marks

/-- A conduct in the arrangement is that of its node. -/
theorem conduct_of_gated {c d : Conduct} (bound : position ≤ core.length)
    (item : n.item? core body = some d)
    (here : (gated label position core body)[n.place (some position) body.length]? = some c) : c = d :=
  Option.some.inj (here.symm.trans (gated_getElem? label bound item))

/-- What stands in the arrangement where a live node stands is the line of the node. -/
theorem LiveNode.item_of_gated {c : Conduct} (bound : position ≤ core.length)
    (live : LiveNode core body n)
    (here : (gated label position core body)[n.place (some position) body.length]? = some c) :
    n.item? core body = some c := by
  obtain ⟨d, item⟩ := live.exists_item
  rw [conduct_of_gated bound item here]
  exact item

/-- A line that continues is not the last of a body that control does not run out of. -/
theorem inside_of_continues (stops : ∀ d, body.getLast? = some d → d.continues = false) {i : Nat}
    (item : body[i]? = some d) (continues : d.continues = true) : i + 1 < body.length := by
  have inside : i < body.length := (List.getElem?_eq_some_iff.1 item).1
  by_contra past
  have last : body.getLast? = some d := by
    rw [List.getLast?_eq_getElem?, show body.length - 1 = i by omega]
    exact item
  rw [stops d last] at continues
  cases continues

/-- Where control comes to the block, it comes to the line behind it as well. -/
theorem EntersNode.liveNode (enters : EntersNode core body position) (here : core[position]? = some d) :
    LiveNode core body (.core position) := by
  rcases enters with rfl | ⟨i, c, rfl, live, item, continues⟩
  · exact .first here
  · exact .following (n := .core i) live item continues here

/-- From a live node that continues, control goes on to a live node or to the block. -/
theorem LiveNode.next_cases {c : Conduct} (bound : position ≤ core.length)
    (stops : ∀ d, body.getLast? = some d → d.continues = false) (live : LiveNode core body n)
    (item : n.item? core body = some c) (continues : c.continues = true)
    (here : (gated label position core body)[n.place (some position) body.length + 1]? = some d) :
    (∃ n', LiveNode core body n' ∧
      n.place (some position) body.length + 1 = n'.place (some position) body.length) ∨
      (n.place (some position) body.length + 1 = position ∧ EntersNode core body position) := by
  cases n with
  | body i =>
      have more := inside_of_continues stops item continues
      have next : (Node.body (i + 1)).item? core body = some body[i + 1] := List.getElem?_eq_getElem more
      exact .inl ⟨_, .following live item continues next, rfl⟩
  | core i =>
      by_cases entered : i + 1 = position
      · subst entered
        exact .inr ⟨congrArg (· + 1) (Node.place_before i body.length),
          .inr ⟨i, c, rfl, live, item, continues⟩⟩
      · have place := Node.place_succ entered body.length
        rw [← place] at here
        have next : (Node.core (i + 1)).item? core body = some d :=
          (arrange_getElem?_core bound (i + 1)).symm.trans here
        exact .inl ⟨_, .following live item continues next, place.symm⟩

/-- Control reaches the live nodes, and the ends of the block if it comes to the block at all. -/
theorem live_gated_cases (bound : position ≤ core.length)
    (unmarked : ∀ (n : Node) d, n.item? core body = some d → d.marksLabel ≠ some label)
    (unused : ∀ (n : Node) d, LiveNode core body n → n.item? core body = some d →
      d.refersTo ≠ some label)
    (stops : ∀ d, body.getLast? = some d → d.continues = false) {k : Nat}
    (h : Live (gated label position core body) k) :
    (∃ n, LiveNode core body n ∧ k = n.place (some position) body.length) ∨
      ((k = position ∨ k = position + (body.length + 1)) ∧ EntersNode core body position) := by
  induction h with
  | first here =>
      rcases exists_of_arrange_getElem? bound here with ⟨n, item, place⟩ | ⟨rfl, -⟩ | ⟨place, -⟩
      · cases n with
        | core i =>
            obtain rfl : i = 0 := by
              simp only [Node.place] at place
              split at place <;> omega
            exact .inl ⟨_, .first item, place⟩
        | body i =>
            simp only [Node.place] at place
            omega
      · exact .inr ⟨.inl rfl, .inl rfl⟩
      · omega
  | @following k c d _ before continues here ih =>
      rcases ih with ⟨n, live, rfl⟩ | ⟨rfl | rfl, enters⟩
      · have item := live.item_of_gated bound before
        rcases live.next_cases bound stops item continues here with next | ⟨place, enters⟩
        · exact .inl next
        · exact .inr ⟨.inl place, enters⟩
      · rw [gated, arrange_getElem?_first bound] at before
        cases before
        cases continues
      · rw [← Node.place_behind] at here ⊢
        exact .inl ⟨_, enters.liveNode ((arrange_getElem?_core bound position).symm.trans here), rfl⟩
  | @referred k j c d name _ before refers here marks ih =>
      rcases exists_of_arrange_getElem? bound here with ⟨n', item', rfl⟩ | ⟨-, rfl⟩ | ⟨rfl, rfl⟩
      · rcases ih with ⟨n, live, rfl⟩ | ⟨rfl | rfl, enters⟩
        · have item := live.item_of_gated bound before
          exact .inl ⟨n', .referred live item refers item' marks, rfl⟩
        · rw [gated, arrange_getElem?_first bound] at before
          cases before
          cases refers
          exact absurd marks (unmarked n' d item')
        · rw [gated, arrange_getElem?_last bound] at before
          cases before
          cases refers
      · cases marks
      · cases marks
        rcases ih with ⟨n, live, rfl⟩ | ⟨-, enters⟩
        · exact absurd refers (unused n c live (live.item_of_gated bound before))
        · exact .inr ⟨.inr rfl, enters⟩

/-- Different nodes stand at different places, and none at an end of the block. -/
theorem Node.place_injective {n' : Node} {e : Conduct} (item : n.item? core body = some d)
    (item' : n'.item? core body = some e)
    (same : n.place (some position) body.length = n'.place (some position) body.length) : n = n' := by
  rcases n with i | i <;> rcases n' with j | j <;> simp only [Node.place] at same
  · split at same <;> split at same <;> exact congrArg _ (by omega)
  · have inside : j < body.length := (List.getElem?_eq_some_iff.1 item').1
    split at same <;> omega
  · have inside : i < body.length := (List.getElem?_eq_some_iff.1 item).1
    split at same <;> omega
  · exact congrArg _ (by omega)

theorem Node.place_ne_end (position : Nat) (item : n.item? core body = some d) :
    n.place (some position) body.length ≠ position ∧
      n.place (some position) body.length ≠ position + (body.length + 1) := by
  rcases n with i | i <;> simp only [Node.place]
  · split <;> omega
  · have inside : i < body.length := (List.getElem?_eq_some_iff.1 item).1
    omega

/-- Control reaches the lines of a core, with a block among them, as the nodes tell: the live nodes, and
    the ends of the block together, wherever it comes to the block. -/
structure Passable (label : String) (position : Nat) (core body : List Conduct) : Prop where
  node : ∀ {n : Node} {d}, n.item? core body = some d →
    (Live (gated label position core body) (n.place (some position) body.length) ↔ LiveNode core body n)
  first : Live (gated label position core body) position ↔ EntersNode core body position
  last : Live (gated label position core body) (position + (body.length + 1)) ↔
    EntersNode core body position

/-- A block that nothing outside needs can be passed over: control reaches the same lines of the core and of
    the body with it and without it. -/
theorem passable (bound : position ≤ core.length)
    (unmarked : ∀ (n : Node) d, n.item? core body = some d → d.marksLabel ≠ some label)
    (unused : ∀ (n : Node) d, LiveNode core body n → n.item? core body = some d →
      d.refersTo ≠ some label)
    (stops : ∀ d, body.getLast? = some d → d.continues = false) :
    Passable label position core body := by
  have cases {k : Nat} := live_gated_cases (k := k) bound unmarked unused stops
  have enters (h : EntersNode core body position) : Live (gated label position core body) position :=
    h.live bound fun i live _ => live.live bound
  have only {k : Nat} (outside : ∀ {n : Node} {d}, n.item? core body = some d →
      n.place (some position) body.length ≠ k) (h : Live (gated label position core body) k) :
      EntersNode core body position := by
    rcases cases h with ⟨n, live, rfl⟩ | ⟨-, enters⟩
    · obtain ⟨d, item⟩ := live.exists_item
      exact absurd rfl (outside item)
    · exact enters
  refine ⟨fun {n d} item => ⟨fun h => ?_, fun live => live.live bound⟩,
    ⟨only fun item => (Node.place_ne_end position item).1, enters⟩,
    ⟨only fun item => (Node.place_ne_end position item).2, fun h => (enters h).over_block bound⟩⟩
  rcases cases h with ⟨n', live, place⟩ | ⟨place, -⟩
  · obtain ⟨e, item'⟩ := live.exists_item
    obtain rfl := Node.place_injective item item' place
    exact live
  · obtain ⟨first, last⟩ := Node.place_ne_end position item
    exact (place.elim first last).elim

/-- Without the block, control reaches the live nodes of the core alone, when no line that it reaches goes
    to a label of the block. -/
theorem liveNode_alone_iff (foreign : ∀ k c name, Live core k → core[k]? = some c →
      c.refersTo = some name → ∀ d ∈ body, d.marksLabel ≠ some name) :
    LiveNode core body n ↔ ∃ i, n = .core i ∧ Live core i := by
  constructor
  · intro h
    induction h with
    | first here => exact ⟨0, rfl, .first here⟩
    | following _ item continues next ih =>
        obtain ⟨i, rfl, live⟩ := ih
        exact ⟨i + 1, rfl, .following live item continues next⟩
    | @referred n n' c d name _ item refers item' marks ih =>
        obtain ⟨i, rfl, live⟩ := ih
        cases n' with
        | core j => exact ⟨j, rfl, .referred live item refers item' marks⟩
        | body j => exact absurd marks (foreign i c name live item refers d (List.mem_of_getElem? item'))
  · rintro ⟨i, rfl, live⟩
    induction live with
    | first here => exact .first here
    | following _ before continues here ih => exact .following (n := .core _) ih before continues here
    | referred _ before refers here marks ih =>
        have item : (Node.core _).item? core body = some _ := here
        exact .referred ih before refers item marks

end

end Whitespace.Assembly

/-
Module: Whitespace.Machine.Stack
Purpose: The stack of the machine. A value is pushed or popped in constant time, and the value at any
  depth is found in a time that grows with the logarithm of the depth. The values lie in layers of
  trees; how they lie there follows from their order alone, so every stack is either empty or a
  smaller stack with one value pushed, and the equations on `empty` and `push` say all there is to say.
Main exports: Stack, Stack.push, Stack.pop?, Stack.popTwo?, Stack.size, Stack.get?, Stack.drop,
  Stack.toList, Stack.ofList, Stack.recOnPush
-/

namespace Whitespace.Machine

/-- Values in a tree, the one at the root counted first, then those of the left branch, and then those
    of the right branch. -/
inductive ValueTree where
  | leaf (value : Int)
  | node (value : Int) (left right : ValueTree)

namespace ValueTree

/-- The value with a number in a tree of the given size, both of whose branches are equally large. -/
def get? : ValueTree → Nat → Nat → Option Int
  | leaf a, _, i => if i = 0 then some a else none
  | node a left right, size, i =>
    if i = 0 then some a
    else if i - 1 < size / 2 then left.get? (size / 2) (i - 1)
    else right.get? (size / 2) (i - 1 - size / 2)

/-- The values of a tree in front of a list. -/
def appendTo : ValueTree → List Int → List Int
  | leaf a, rest => a :: rest
  | node a left right, rest => a :: left.appendTo (right.appendTo rest)

end ValueTree

/-- Trees of values with their sizes, the first one on top. -/
inductive Layers where
  | nil
  | layer (size : Nat) (tree : ValueTree) (below : Layers)

namespace Layers

/-- Puts a value on top. Two topmost trees of one size become the branches of a new one. -/
def push (layers : Layers) (a : Int) : Layers :=
  match layers with
  | layer m left (layer n right below) =>
    if m = n then layer (m + n + 1) (.node a left right) below
    else layer 1 (.leaf a) layers
  | _ => layer 1 (.leaf a) layers

/-- The value on top, and the layers without it. -/
def pop? : Layers → Option (Int × Layers)
  | nil => none
  | layer _ (.leaf a) below => some (a, below)
  | layer size (.node a left right) below =>
    some (a, layer (size / 2) left (layer (size / 2) right below))

/-- The number of values. -/
def size : Layers → Nat
  | nil => 0
  | layer n _ below => n + below.size

/-- The value at a depth, the top having depth 0. -/
def get? : Layers → Nat → Option Int
  | nil, _ => none
  | layer n tree below, i => if i < n then tree.get? n i else below.get? (i - n)

/-- The values from the top to the bottom. -/
def toList : Layers → List Int
  | nil => []
  | layer _ tree below => tree.appendTo below.toList

theorem pop?_push (layers : Layers) (a : Int) : (layers.push a).pop? = some (a, layers) := by
  unfold push
  split
  · split
    · next h =>
      subst h
      have half (m : Nat) : (m + m + 1) / 2 = m := by omega
      simp only [pop?, half]
    · rfl
  · rfl

theorem size_push (layers : Layers) (a : Int) : (layers.push a).size = layers.size + 1 := by
  unfold push
  split
  · split
    · simp only [size]
      omega
    · simp only [size]
      omega
  · simp only [size]
    omega

theorem get?_push_zero (layers : Layers) (a : Int) : (layers.push a).get? 0 = some a := by
  unfold push
  split
  · split
    · simp [get?, ValueTree.get?]
    · rfl
  · rfl

theorem get?_push_succ (layers : Layers) (a : Int) (i : Nat) :
    (layers.push a).get? (i + 1) = layers.get? i := by
  unfold push
  split
  · next m left n right below =>
    split
    · next h =>
      subst h
      have half : (m + m + 1) / 2 = m := by omega
      simp only [get?, ValueTree.get?, half]
      by_cases hl : i < m
      · simp [hl, show i + 1 < m + m + 1 by omega]
      · by_cases hr : i - m < m
        · simp [hl, hr, show i + 1 < m + m + 1 by omega]
        · simp [hl, hr, show ¬i + 1 < m + m + 1 by omega,
            show i + 1 - (m + m + 1) = i - m - m by omega]
    · simp [get?]
  · simp [get?]

theorem toList_push (layers : Layers) (a : Int) : (layers.push a).toList = a :: layers.toList := by
  unfold push
  split
  · split
    · rfl
    · rfl
  · rfl

/-- Layers that came about by pushing values one after another. -/
inductive Built : Layers → Prop where
  | nil : Built nil
  | push {layers : Layers} (a : Int) : Built layers → Built (layers.push a)

/-- What is left of layers that were built is built too. -/
theorem Built.of_pop? {layers rest : Layers} {a : Int} (h : Built layers)
    (hp : layers.pop? = some (a, rest)) : Built rest := by
  cases h with
  | nil => cases hp
  | push b h =>
    rw [pop?_push] at hp
    cases hp
    exact h

end Layers

structure Stack where
  layers : Layers
  built : layers.Built

namespace Stack

def empty : Stack := ⟨.nil, .nil⟩

instance : EmptyCollection Stack := ⟨empty⟩

instance : Inhabited Stack := ⟨empty⟩

def push (s : Stack) (a : Int) : Stack := ⟨s.layers.push a, s.built.push a⟩

/-- The value on top, and the stack without it. -/
def pop? (s : Stack) : Option (Int × Stack) :=
  match h : s.layers.pop? with
  | some (a, rest) => some (a, ⟨rest, s.built.of_pop? h⟩)
  | none => none

/-- The two topmost values, the top first, and the stack without them. -/
def popTwo? (s : Stack) : Option (Int × Int × Stack) :=
  match s.pop? with
  | some (b, below) =>
    match below.pop? with
    | some (a, rest) => some (b, a, rest)
    | none => none
  | none => none

/-- The number of values. -/
def size (s : Stack) : Nat := s.layers.size

/-- The value at a depth, the top having depth 0. -/
def get? (s : Stack) (depth : Nat) : Option Int := s.layers.get? depth

/-- The stack without as many of its topmost values. -/
def drop (s : Stack) : Nat → Stack
  | 0 => s
  | n + 1 =>
    match s.pop? with
    | some (_, rest) => rest.drop n
    | none => s

/-- The values from the top to the bottom. -/
def toList (s : Stack) : List Int := s.layers.toList

/-- The stack of values that are listed from the top to the bottom. -/
def ofList : List Int → Stack
  | [] => empty
  | a :: rest => (ofList rest).push a

/-- A stack is empty or has a value on top of another stack. -/
@[induction_eliminator] theorem recOnPush {motive : Stack → Prop} (empty : motive empty)
    (push : ∀ s a, motive s → motive (s.push a)) (s : Stack) : motive s := by
  obtain ⟨layers, built⟩ := s
  induction built with
  | nil => exact empty
  | push a h ih => exact push ⟨_, h⟩ a ih

@[cases_eliminator] theorem casesOnPush {motive : Stack → Prop} (empty : motive empty)
    (push : ∀ (s : Stack) (a : Int), motive (s.push a)) (s : Stack) : motive s :=
  recOnPush empty (fun s a _ => push s a) s

@[simp] theorem pop?_empty : empty.pop? = none := rfl

@[simp] theorem pop?_push (s : Stack) (a : Int) : (s.push a).pop? = some (a, s) := by
  have h := Layers.pop?_push s.layers a
  unfold pop?
  split
  · next b rest hp =>
    have hp' : (s.layers.push a).pop? = some (b, rest) := hp
    rw [h] at hp'
    cases hp'
    rfl
  · next hp =>
    have hp' : (s.layers.push a).pop? = none := hp
    rw [h] at hp'
    cases hp'

/-- Popping undoes pushing, and nothing else can be popped. -/
theorem pop?_eq_some_iff {s t : Stack} {a : Int} : s.pop? = some (a, t) ↔ s = t.push a := by
  constructor
  · intro h
    induction s with
    | empty => cases h
    | push u b _ =>
      rw [pop?_push] at h
      cases h
      rfl
  · rintro rfl
    exact pop?_push t a

/-- Only the empty stack has nothing to give. -/
theorem pop?_eq_none_iff {s : Stack} : s.pop? = none ↔ s = empty := by
  constructor
  · intro h
    induction s with
    | empty => rfl
    | push u b _ =>
      rw [pop?_push] at h
      cases h
  · rintro rfl
    rfl

@[simp] theorem popTwo?_push_push (s : Stack) (a b : Int) :
    ((s.push a).push b).popTwo? = some (b, a, s) := by
  simp only [popTwo?, pop?_push]

@[simp] theorem size_empty : empty.size = 0 := rfl

@[simp] theorem size_push (s : Stack) (a : Int) : (s.push a).size = s.size + 1 :=
  Layers.size_push s.layers a

@[simp] theorem get?_empty (depth : Nat) : empty.get? depth = none := rfl

@[simp] theorem get?_push_zero (s : Stack) (a : Int) : (s.push a).get? 0 = some a :=
  Layers.get?_push_zero s.layers a

@[simp] theorem get?_push_succ (s : Stack) (a : Int) (depth : Nat) :
    (s.push a).get? (depth + 1) = s.get? depth :=
  Layers.get?_push_succ s.layers a depth

/-- The depths at which there is no value are those the size does not reach. -/
theorem get?_eq_none_iff {s : Stack} {depth : Nat} : s.get? depth = none ↔ s.size ≤ depth := by
  induction s generalizing depth with
  | empty => simp
  | push s a ih =>
    cases depth with
    | zero => simp
    | succ depth => rw [get?_push_succ, size_push, ih, Nat.add_le_add_iff_right]

@[simp] theorem drop_zero (s : Stack) : s.drop 0 = s := rfl

@[simp] theorem drop_push_succ (s : Stack) (a : Int) (n : Nat) :
    (s.push a).drop (n + 1) = s.drop n := by
  simp only [drop, pop?_push]

@[simp] theorem toList_empty : empty.toList = [] := rfl

@[simp] theorem toList_push (s : Stack) (a : Int) : (s.push a).toList = a :: s.toList :=
  Layers.toList_push s.layers a

/-- Listing the values of a stack built from a list gives the list back. -/
@[simp] theorem toList_ofList (values : List Int) : (ofList values).toList = values := by
  induction values with
  | nil => rfl
  | cons a rest ih => rw [ofList, toList_push, ih]

/-- A stack is determined by its values. -/
@[simp] theorem ofList_toList (s : Stack) : ofList s.toList = s := by
  induction s with
  | empty => rfl
  | push s a ih => rw [toList_push, ofList, ih]

end Stack

end Whitespace.Machine

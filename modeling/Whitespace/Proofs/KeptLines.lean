/-
Module: Whitespace.Proofs.KeptLines
Purpose: Lists of which only the items at some places are kept. The rank of a place, the number of places
  kept before it, is where its item stands in the shorter list. Dropping lines that define no variables
  drops their statements and leaves the others as they are.
Main exports: pick, rank, pick_getElem?, exists_of_pick_getElem?, filterMap_pick, keptPlaces,
  reachableLines_eq_pick, keptPlaces_iff, readable_pick, isSearchOrder, reachableLines_of_isSearchOrder
-/
import Mathlib.Data.Nat.Count
import Whitespace.Proofs.AcceptedLines
import Whitespace.Proofs.LiveLines

namespace Whitespace.Assembly

/-! ### Picking items -/

section

variable {α β : Type}

/-- The items at the places to be kept, the first item having the given place. -/
def pick (keep : Nat → Bool) : Nat → List α → List α
  | _, [] => []
  | start, a :: rest =>
    if keep start then a :: pick keep (start + 1) rest else pick keep (start + 1) rest

/-- The number of places before a place that are kept. -/
def rank (keep : Nat → Bool) (k : Nat) : Nat := Nat.count (keep · = true) k

variable {keep : Nat → Bool} {start k : Nat} {a : α} {items : List α}

theorem succ_add_place (start i : Nat) : start + 1 + i = start + (i + 1) := by omega

@[simp] theorem rank_zero (keep : Nat → Bool) : rank keep 0 = 0 := Nat.count_zero _

theorem rank_succ_of_keep (h : keep k = true) : rank keep (k + 1) = rank keep k + 1 := by
  rw [rank, Nat.count_succ, if_pos h, rank]

theorem rank_succ_of_drop (h : keep k = false) : rank keep (k + 1) = rank keep k := by
  rw [rank, Nat.count_succ, if_neg (by simp [h]), rank]
  rfl

theorem rank_mono (keep : Nat → Bool) {j k : Nat} (h : j ≤ k) : rank keep j ≤ rank keep k :=
  Nat.count_monotone _ h

theorem rank_lt_rank {j : Nat} (kept : keep j = true) (h : j < k) : rank keep j < rank keep k :=
  Nat.count_strict_mono kept h

theorem pick_eq_zipIdx (keep : Nat → Bool) (start : Nat) (items : List α) :
    pick keep start items = ((items.zipIdx start).filter fun (_, k) => keep k).map Prod.fst := by
  induction items generalizing start with
  | nil => rfl
  | cons a rest ih =>
      rw [pick, ih, List.zipIdx_cons]
      cases kept : keep start <;> simp [kept]

theorem pick_map (f : α → β) (keep : Nat → Bool) (start : Nat) (items : List α) :
    pick keep start (items.map f) = (pick keep start items).map f := by
  induction items generalizing start with
  | nil => rfl
  | cons a rest ih =>
      rw [List.map_cons, pick, pick, ih]
      split <;> rfl

theorem pick_append (keep : Nat → Bool) (start : Nat) (first second : List α) :
    pick keep start (first ++ second) =
      pick keep start first ++ pick keep (start + first.length) second := by
  simp only [pick_eq_zipIdx, List.zipIdx_append, List.filter_append, List.map_append]

/-- All items are picked when all their places are to be kept. -/
theorem pick_eq_self (h : ∀ i, i < items.length → keep (start + i) = true) :
    pick keep start items = items := by
  rw [pick_eq_zipIdx, List.filter_eq_self.2, List.zipIdx_map_fst]
  rintro ⟨a, k⟩ member
  obtain ⟨above, below, -⟩ := List.mem_zipIdx member
  obtain ⟨i, rfl⟩ := Nat.exists_eq_add_of_le above
  exact h i (by omega)

/-- No item is picked when none of their places is to be kept. -/
theorem pick_eq_nil (h : ∀ i, i < items.length → keep (start + i) = false) :
    pick keep start items = [] := by
  rw [pick_eq_zipIdx, List.filter_eq_nil_iff.2, List.map_nil]
  rintro ⟨a, k⟩ member
  obtain ⟨above, below, -⟩ := List.mem_zipIdx member
  obtain ⟨i, rfl⟩ := Nat.exists_eq_add_of_le above
  simpa using h i (by omega)

/-- As many items are picked as places are kept in their range. -/
theorem length_pick_add_rank (keep : Nat → Bool) (start : Nat) (items : List α) :
    (pick keep start items).length + rank keep start = rank keep (start + items.length) := by
  induction items generalizing start with
  | nil => simp [pick]
  | cons a rest ih =>
      have others := ih (start + 1)
      rw [pick, List.length_cons, ← Nat.add_assoc, Nat.add_right_comm start]
      cases kept : keep start with
      | true =>
          rw [rank_succ_of_keep kept] at others
          simp only [if_true, List.length_cons]
          omega
      | false =>
          rw [rank_succ_of_drop kept] at others
          simpa using others

/-- A kept item is found among the picked ones at its rank. -/
theorem pick_getElem?_from {d i : Nat} (kept : keep (start + i) = true)
    (h : d + rank keep start = rank keep (start + i)) : (pick keep start items)[d]? = items[i]? := by
  induction items generalizing start d i with
  | nil => simp [pick]
  | cons a rest ih =>
      cases i with
      | zero =>
          rw [Nat.add_zero] at kept h
          obtain rfl : d = 0 := by omega
          rw [pick, if_pos kept]
          rfl
      | succ i =>
          rw [← succ_add_place] at kept h
          cases here : keep start with
          | true =>
              have passed := rank_lt_rank here (show start < start + 1 + i by omega)
              obtain ⟨d, rfl⟩ : ∃ e, d = e + 1 := ⟨d - 1, by omega⟩
              rw [pick, if_pos here, List.getElem?_cons_succ, List.getElem?_cons_succ]
              apply ih kept
              rw [rank_succ_of_keep here]
              omega
          | false =>
              rw [pick, if_neg (by simp [here]), List.getElem?_cons_succ]
              apply ih kept
              rw [rank_succ_of_drop here]
              exact h

/-- The item at a place that is kept stands at the rank of the place. -/
theorem pick_getElem? (kept : keep k = true) : (pick keep 0 items)[rank keep k]? = items[k]? := by
  apply pick_getElem?_from
  · rw [Nat.zero_add]
    exact kept
  · simp

/-- Every picked item was kept, and its rank is the place at which it is found. -/
theorem exists_of_pick_getElem?_from {d : Nat} (h : (pick keep start items)[d]? = some a) :
    ∃ i, keep (start + i) = true ∧ items[i]? = some a ∧
      d + rank keep start = rank keep (start + i) := by
  induction items generalizing start d with
  | nil => simp [pick] at h
  | cons b rest ih =>
      rw [pick] at h
      cases here : keep start with
      | true =>
          rw [if_pos here] at h
          cases d with
          | zero => exact ⟨0, here, h, Nat.zero_add _⟩
          | succ d =>
              obtain ⟨i, kept, item, place⟩ := ih h
              rw [rank_succ_of_keep here] at place
              rw [succ_add_place] at kept place
              exact ⟨i + 1, kept, item, by omega⟩
      | false =>
          rw [if_neg (by simp [here])] at h
          obtain ⟨i, kept, item, place⟩ := ih h
          rw [rank_succ_of_drop here] at place
          rw [succ_add_place] at kept place
          exact ⟨i + 1, kept, item, place⟩

/-- Every item that was picked comes from a place that is kept. -/
theorem exists_of_pick_getElem? {d : Nat} (h : (pick keep 0 items)[d]? = some a) :
    ∃ k, keep k = true ∧ items[k]? = some a ∧ d = rank keep k := by
  obtain ⟨k, kept, item, place⟩ := exists_of_pick_getElem?_from h
  rw [Nat.zero_add] at kept place
  exact ⟨k, kept, item, by simpa using place⟩

theorem length_filter_pick_le (test : α → Bool) (keep : Nat → Bool) (start : Nat) (items : List α) :
    ((pick keep start items).filter test).length ≤ (items.filter test).length := by
  have picked := (List.filter_sublist (p := fun x : α × Nat => keep x.2) (l := items.zipIdx start)).map
    Prod.fst
  rw [List.zipIdx_map_fst] at picked
  rw [pick_eq_zipIdx]
  exact (picked.filter test).length_le

/-- Picking drops none of the tested items exactly if it keeps the first one, should it pass the test, and
    drops none of the others. -/
theorem filter_pick_cons_eq_iff {test : α → Bool} {b : α} {rest : List α} :
    (pick keep start (b :: rest)).filter test = (b :: rest).filter test ↔
      (test b = true → keep start = true) ∧ (pick keep (start + 1) rest).filter test = rest.filter test := by
  have bound := length_filter_pick_le test keep (start + 1) rest
  rw [pick]
  cases here : keep start with
  | true => cases head : test b <;> simp [head]
  | false =>
      cases head : test b with
      | false => simp [head]
      | true =>
          have different : (pick keep (start + 1) rest).filter test ≠ b :: rest.filter test := by
            intro same
            rw [same, List.length_cons] at bound
            omega
          simp [head, different]

/-- The items that pass a test are all picked when their places are kept, and only then. -/
theorem filter_pick_eq_iff {test : α → Bool} :
    (pick keep start items).filter test = items.filter test ↔
      ∀ i a, items[i]? = some a → test a = true → keep (start + i) = true := by
  induction items generalizing start with
  | nil => simp [pick]
  | cons b rest ih =>
      rw [filter_pick_cons_eq_iff]
      constructor
      · rintro ⟨first, others⟩ i a item passed
        cases i with
        | zero =>
            cases item
            exact first passed
        | succ i =>
            rw [← succ_add_place]
            exact ih.1 others i a item passed
      · intro all
        constructor
        · exact all 0 b rfl
        · apply ih.2
          intro i a item passed
          rw [succ_add_place]
          exact all (i + 1) a item passed

/-- Leaving out items moves every other item to the rank of its place. -/
theorem map_filterMap_eq_pick {γ : Type} {f : α → Option β} {g : β → γ} {h : α → γ}
    (shown : ∀ i a, items[i]? = some a → keep (start + i) = (f a).isSome)
    (agree : ∀ a b, f a = some b → g b = h a) :
    (items.filterMap f).map g = pick keep start (items.map h) := by
  induction items generalizing start with
  | nil => rfl
  | cons a rest ih =>
      have here : keep start = (f a).isSome := shown 0 a rfl
      have others : (rest.filterMap f).map g = pick keep (start + 1) (rest.map h) := by
        apply ih
        intro i b item
        rw [succ_add_place]
        exact shown (i + 1) b item
      rw [List.map_cons, pick, here, ← others]
      cases image : f a with
      | none => rw [List.filterMap_cons_none image, if_neg nofun]
      | some b =>
          rw [List.filterMap_cons_some image, List.map_cons, agree a b image]
          rfl

/-- Items may be left out before or after picking, when what is picked is told by rank. -/
theorem filterMap_pick {f : α → Option β} {seen keep' : Nat → Bool}
    (shown : ∀ i a, items[i]? = some a → seen (start + i) = (f a).isSome)
    (same : ∀ i, i < items.length → seen (start + i) = true →
      keep (start + i) = keep' (rank seen (start + i))) :
    (pick keep start items).filterMap f = pick keep' (rank seen start) (items.filterMap f) := by
  induction items generalizing start with
  | nil => rfl
  | cons a rest ih =>
      have here : seen start = (f a).isSome := shown 0 a rfl
      have others : (pick keep (start + 1) rest).filterMap f =
          pick keep' (rank seen (start + 1)) (rest.filterMap f) := by
        apply ih
        · intro i b item
          rw [succ_add_place]
          exact shown (i + 1) b item
        · intro i hi
          rw [succ_add_place]
          exact same (i + 1) (Nat.succ_lt_succ hi)
      cases image : f a with
      | none =>
          rw [image] at here
          rw [rank_succ_of_drop here] at others
          rw [List.filterMap_cons_none image, ← others, pick]
          split
          · exact List.filterMap_cons_none image
          · rfl
      | some b =>
          rw [image] at here
          rw [rank_succ_of_keep here] at others
          have kept : keep start = keep' (rank seen start) := same 0 (Nat.succ_pos _) here
          rw [List.filterMap_cons_some image, pick, pick, ← kept, ← others]
          split
          · exact List.filterMap_cons_some image
          · rfl

end

/-! ### Kept lines -/

/-- The places that the search for dead lines leaves; places after the last line count as kept. -/
def keptPlaces (lines : List Line) (k : Nat) : Bool := !(unreachablePlaces lines).contains k

theorem reachableLines_eq_pick (lines : List Line) :
    reachableLines lines = pick (keptPlaces lines) 0 lines := by
  rw [pick_eq_zipIdx]
  rfl

/-- A place is kept exactly when control can reach it, or there is no line at it. -/
theorem keptPlaces_iff {lines : List Line} {k : Nat} :
    keptPlaces lines k = true ↔ lines.length ≤ k ∨ Live (lines.map Line.conduct) k := by
  have dead := @mem_unreachablePlaces_iff lines k
  rw [Std.TreeSet.mem_iff_contains] at dead
  rw [keptPlaces, Bool.not_eq_true', ← Bool.not_eq_true, dead]
  by_cases live : Live (lines.map Line.conduct) k
  · simp [live]
  · simp [live]

theorem keptPlaces_iff_live {lines : List Line} {k : Nat} {l : Line} (here : lines[k]? = some l) :
    keptPlaces lines k = true ↔ Live (lines.map Line.conduct) k := by
  rw [keptPlaces_iff, or_iff_right (Nat.not_le.2 (List.getElem?_eq_some_iff.1 here).1)]

/-- The lines that are kept are those that control can reach. -/
theorem mem_reachableLines_iff {lines : List Line} {l : Line} :
    l ∈ reachableLines lines ↔ ∃ k, lines[k]? = some l ∧ Live (lines.map Line.conduct) k := by
  rw [reachableLines_eq_pick]
  constructor
  · intro member
    obtain ⟨d, here⟩ := List.mem_iff_getElem?.1 member
    obtain ⟨k, kept, item, -⟩ := exists_of_pick_getElem? here
    exact ⟨k, item, (keptPlaces_iff_live item).1 kept⟩
  · rintro ⟨k, item, live⟩
    exact List.mem_of_getElem? ((pick_getElem? ((keptPlaces_iff_live item).2 live)).trans item)

theorem mem_of_mem_reachableLines {lines : List Line} {l : Line} (h : l ∈ reachableLines lines) :
    l ∈ lines := by
  obtain ⟨k, here, -⟩ := mem_reachableLines_iff.1 h
  exact List.mem_of_getElem? here

/-- A line that is no definition leaves the variables as they are. -/
theorem Variables.after_of_not_definition {options : Options} {vs : Variables} {l : Line}
    {s? : Option Statement} (h : Statement.ofLine options vs l = .ok s?)
    (plain : l.isDefinition = false) : vs.after s? = vs := by
  cases s? with
  | none => rfl
  | some s =>
      cases s with
      | define name value =>
          rw [Line.isDefinition_of_ofLine h] at plain
          cases plain
      | _ => rfl

section

variable {options : Options} {vs : Variables} {keep : Nat → Bool} {start : Nat} {lines : List Line}

/-- Lines stay readable without lines that define no variables, and keep their statements. -/
theorem readable_pick (readable : (readStatements options vs lines).error? = none)
    (definitions : ∀ i l, lines[i]? = some l → l.isDefinition = true → keep (start + i) = true) :
    (readStatements options vs (pick keep start lines)).error? = none ∧
      LineProgram.ofLines options vs (pick keep start lines) =
        pick keep start (LineProgram.ofLines options vs lines) := by
  induction lines generalizing vs start with
  | nil => exact ⟨rfl, rfl⟩
  | cons l rest ih =>
      obtain ⟨s?, hl, others⟩ := readStatements_cons_error?.1 readable
      have later : ∀ i l, rest[i]? = some l → l.isDefinition = true → keep (start + 1 + i) = true := by
        intro i l' item definition
        rw [succ_add_place]
        exact definitions (i + 1) l' item definition
      rw [LineProgram.ofLines_cons hl, pick, pick]
      cases here : keep start with
      | true =>
          obtain ⟨error, statements⟩ := ih others later
          rw [if_pos rfl, if_pos rfl, LineProgram.ofLines_cons hl, statements]
          exact ⟨readStatements_cons_error?.2 ⟨s?, hl, error⟩, rfl⟩
      | false =>
          have plain : l.isDefinition = false := by
            by_contra definition
            have kept := definitions 0 l rfl (by simpa using definition)
            rw [Nat.add_zero, here] at kept
            cases kept
          rw [Variables.after_of_not_definition hl plain] at others ⊢
          rw [if_neg nofun, if_neg nofun]
          exact ih others later

end

/-! ### Lists of the places to be kept -/

/-- Does the list hold the places that control reaches, in an order in which each comes after one that
    leads to it? -/
def isSearchOrder (lines : List Line) (order : List Nat) : Bool :=
  let conducts := (lines.map Line.conduct).toArray
  let next := successors conducts (definitionsOf conducts)
  order.contains 0 &&
    (order.zipIdx.all fun (k, i) => k < lines.length &&
      (k = 0 || (order.take i).any fun j => (next j).contains k)) &&
    order.all fun k => (next k).all fun j => lines.length ≤ j || order.contains j

section

variable {lines : List Line} {order : List Nat} {k : Nat}

/-- A search order lists exactly the lines that control can reach. -/
theorem live_iff_mem_order (h : isSearchOrder lines order = true) :
    Live (lines.map Line.conduct) k ↔ k ∈ order := by
  simp only [isSearchOrder, Bool.and_eq_true, List.contains_iff_mem, List.all_eq_true, List.any_eq_true,
    Bool.or_eq_true, decide_eq_true_eq, mem_successors_iff] at h
  obtain ⟨⟨first, sound⟩, complete⟩ := h
  have inside {j : Nat} {d : Conduct} (here : (lines.map Line.conduct)[j]? = some d) :
      j < lines.length := by
    have bound := (List.getElem?_eq_some_iff.1 here).1
    rwa [List.length_map] at bound
  constructor
  · intro live
    induction live with
    | first _ => exact first
    | following _ before continues here ih =>
        exact (complete _ ih _ ⟨_, before, .inl ⟨continues, rfl⟩⟩).resolve_left
          (Nat.not_le_of_lt (inside here))
    | referred _ before refers here marks ih =>
        exact (complete _ ih _ ⟨_, before, .inr ⟨_, _, refers, here, marks⟩⟩).resolve_left
          (Nat.not_le_of_lt (inside here))
  · intro member
    obtain ⟨i, place⟩ := List.mem_iff_getElem?.1 member
    induction i using Nat.strongRecOn generalizing k with
    | ind i ih =>
        obtain ⟨bound, start⟩ := sound (k, i) (List.mem_zipIdx_iff_getElem?.2 place)
        have here : (lines.map Line.conduct)[k]? = some lines[k].conduct := by simp [bound]
        rcases start with rfl | ⟨j, earlier, c, before, leads⟩
        · exact .first here
        obtain ⟨n, less, found⟩ := List.mem_take_iff_getElem.1 earlier
        have live : Live (lines.map Line.conduct) j :=
          ih n (Nat.lt_min.1 less).1 (List.mem_of_mem_take earlier)
            (List.getElem?_eq_some_iff.2 ⟨(Nat.lt_min.1 less).2, found⟩)
        rcases leads with ⟨continues, rfl⟩ | ⟨name, d, refers, target, marks⟩
        · exact .following live before continues here
        · exact .referred live before refers target marks

/-- The lines that control reaches are those at the places of such a list. -/
theorem reachableLines_of_isSearchOrder (h : isSearchOrder lines order = true) :
    reachableLines lines = pick order.contains 0 lines := by
  rw [reachableLines_eq_pick, pick_eq_zipIdx, pick_eq_zipIdx]
  congr 1
  refine List.filter_congr ?_
  rintro ⟨l, k⟩ member
  have bound := (List.mem_zipIdx member).2.1
  rw [Bool.eq_iff_iff, keptPlaces_iff, live_iff_mem_order h, List.contains_iff_mem, or_iff_right]
  omega

end

end Whitespace.Assembly
